import NeonEvm.AccountStorage.Works

/-!
# AccountStorage/Locking — loading the accounts, and turning their locks

    new               every Ethereum account that was supplied has a handle
    check             none of those is locked
    block_accounts    L ▸ L.locking b (their keys)
    gas payment       from a handle to the operator's account, whose lock stays

What `new` writes of pages is of accounts with a handle.
-/

namespace NeonEvm

open Exec Packable

variable [Platform] [Runtime]

namespace ProgramAccountStorage

/-! ## Loading -/

omit [Platform] [Runtime] in
theorem mem_supplied {operator : AccountMeta} {system : Option AccountMeta}
    {accounts : List AccountMeta} {k : Pubkey} :
    k ∈ supplied operator system accounts ↔
      k ∈ (accounts ++ operator :: system.toList).map (·.pubkey) := by
  rw [supplied]
  generalize accounts ++ operator :: system.toList = infos
  suffices hall : ∀ (infos : List AccountMeta) (m : HashMap Pubkey AccountMeta),
      k ∈ infos.foldl (fun m info => m.insert info.pubkey info) m ↔
        k ∈ m ∨ k ∈ infos.map (·.pubkey) by
    rw [hall]
    exact or_iff_right (AList.notMem_empty k)
  intro infos
  induction infos with
  | nil => exact fun m => (or_iff_left List.not_mem_nil).symm
  | cons x infos ih =>
    intro m
    rw [List.foldl_cons, ih, AList.mem_insert, List.map_cons, List.mem_cons, or_assoc, or_left_comm]

/-- The handles of the accounts under some keys. -/
structure HandlesOf (L : Ledger) (keys : List Pubkey) (handles : Handles) : Prop where
  account : ∀ {a k}, handles.ethereumAccounts.lookup a = some k ↔
    k ∈ keys ∧ ∃ d rest, L.held EthereumAccount k = some (d, rest) ∧ d.address = a
  page : ∀ {a i k}, handles.storageAccounts.lookup (a, i) = some k →
    k ∈ keys ∧ ∃ p rest, L.held EthereumStorage k = some (p, rest) ∧ p.address = a
  formed : ∀ {k}, k ∈ keys → L.accountExists k = true →
    (L.held EthereumAccount k).isSome = true

variable {L L' L₀ : Ledger} {handles handles' : Handles} {keys : List Pubkey} {k : Pubkey}
  {a : Address} {u : Unit}

omit [Platform] in
theorem HandlesOf.nil : HandlesOf L [] ⟨∅, ∅⟩ where
  account {a k} := by
    rw [AList.lookup_empty]
    exact ⟨fun h => (by cases h), fun h => (List.not_mem_nil h.1).elim⟩
  page h := by
    rw [AList.lookup_empty] at h
    cases h
  formed h := (List.not_mem_nil h).elim

omit [Platform] in
/-- An account that is none of ours to open. -/
theorem HandlesOf.skip (h : HandlesOf L keys handles) (hk : L.held EthereumAccount k = none)
    (hformed : ¬L.accountExists k = true) : HandlesOf L (keys ++ [k]) handles where
  account {a j} := by
    rw [h.account, List.mem_append, List.mem_singleton]
    refine and_congr_left fun hj => (or_iff_left ?_).symm
    rintro rfl
    obtain ⟨d, rest, hd, -⟩ := hj
    exact absurd (hk.symm.trans hd) (by simp)
  page hi := ⟨List.mem_append_left _ (h.page hi).1, (h.page hi).2⟩
  formed hj hexists := by
    rcases List.mem_append.1 hj with hj | hj
    · exact h.formed hj hexists
    · exact absurd (List.mem_singleton.1 hj ▸ hexists) hformed

/-- **One more account** is opened. -/
theorem HandlesOf.openHandle_ok (hL : L.Placed) (h : HandlesOf L keys handles)
    (hopen : openHandle handles k L = .ok handles' L') :
    L = L' ∧ HandlesOf L (keys ++ [k]) handles' := by
  simp only [openHandle, accountAt, bind_eq_ok, gets_eq_ok] at hopen
  obtain ⟨_, _, ⟨rfl, rfl⟩, hopen⟩ := hopen
  split_ifs at hopen with howner htag htag'
  · obtain ⟨rfl, rfl⟩ := pure_eq_ok.1 hopen
    exact ⟨rfl, h.skip (if_neg howner) (by simp [Ledger.accountExists, howner])⟩
  · obtain ⟨d, _, hd, hpure⟩ := bind_eq_ok.1 hopen
    obtain ⟨rfl, rest, hd⟩ := fromAccount_ok hd
    obtain ⟨rfl, rfl⟩ := pure_eq_ok.1 hpure
    refine ⟨rfl, ⟨fun {a j} => ?_, fun hi => ?_, fun {j} hj hexists => ?_⟩⟩
    · by_cases ha : a = d.address
      · rw [ha, AList.lookup_insert, Option.some.injEq, hL.account hd]
        constructor
        · rintro rfl
          exact ⟨List.mem_append_right _ (hL.account hd ▸ List.mem_singleton_self _), d, rest,
            hL.account hd ▸ hd, rfl⟩
        · rintro ⟨-, e, r, he, hea⟩
          rw [hL.account he, hea]
      · rw [AList.lookup_insert_ne ha, h.account, List.mem_append, List.mem_singleton]
        refine and_congr_left fun hj => (or_iff_left ?_).symm
        rintro rfl
        obtain ⟨e, r, he, rfl⟩ := hj
        exact ha (congrArg (·.1.address) (Option.some.inj (he.symm.trans hd)))
    · exact ⟨List.mem_append_left _ (h.page hi).1, (h.page hi).2⟩
    · rcases List.mem_append.1 hj with hj | hj
      · exact h.formed hj hexists
      · rw [List.mem_singleton.1 hj, hd]
        rfl
  · obtain ⟨p, _, hp, hpure⟩ := bind_eq_ok.1 hopen
    obtain ⟨rfl, rest, hp⟩ := fromAccount_ok hp
    obtain ⟨rfl, rfl⟩ := pure_eq_ok.1 hpure
    have hskip := h.skip (Ledger.held_ethereum_of_storage hp)
      (by simp [Ledger.accountExists, htag])
    refine ⟨rfl, ⟨hskip.account, fun {a i j} hi => ?_, hskip.formed⟩⟩
    by_cases ha : (a, i) = (p.address, p.index)
    · obtain ⟨rfl, rfl⟩ := Prod.mk.inj ha
      rw [AList.lookup_insert, Option.some.injEq] at hi
      exact ⟨hi ▸ List.mem_append_right _ (List.mem_singleton_self _), p, rest, hi ▸ hp, rfl⟩
    · rw [AList.lookup_insert_ne ha] at hi
      exact hskip.page hi
  · obtain ⟨rfl, rfl⟩ := pure_eq_ok.1 hopen
    refine ⟨rfl, h.skip ?_ (by simp [Ledger.accountExists, htag])⟩
    rw [← Option.not_isSome_iff_eq_none]
    intro hsome
    obtain ⟨⟨d, rest⟩, hd⟩ := Option.isSome_iff_exists.1 hsome
    rw [(Ledger.held_ethereum.1 hd).2] at htag
    exact htag rfl

/-- **All of them** are opened, and left alone. -/
theorem handlesOf_openHandles (hL : L.Placed)
    (h : foldl openHandle ⟨∅, ∅⟩ keys L = .ok handles L') : L = L' ∧ HandlesOf L keys handles := by
  refine foldl_invariant (I := fun done handles L₁ => L = L₁ ∧ HandlesOf L done handles) ?_
    ⟨rfl, .nil⟩ h
  rintro done k _ handles _ handles' L₂ - ⟨rfl, hdone⟩ hopen
  exact hdone.openHandle_ok hL hopen

/-- Pages are cleared of accounts in `K`, and the accounts are as they were. -/
structure Clears (K : Pubkey → Prop) (L L' : Ledger) : Prop where
  within : L.Within K (fun _ => False) L'
  account : ∀ k, L'.held EthereumAccount k = L.held EthereumAccount k
  accountExists : ∀ k, L'.accountExists k = L.accountExists k

/-- **A page is cleared** where its account has a handle. -/
theorem HandlesOf.clearStale_ok (hL : L₀.Placed) (h : HandlesOf L₀ keys handles)
    (hclears : Clears (· ∈ keys) L₀ L) {supplied : HashMap Pubkey AccountMeta}
    (hsupplied : ∀ {k info}, supplied.lookup k = some info → info.pubkey = k) {operator : Pubkey}
    {i : U256} (hk : handles.storageAccounts.lookup (a, i) = some k)
    (hclear : clearStale handles supplied operator a k L = .ok u L') :
    a ∈ handles.ethereumAccounts ∧ Clears (· ∈ keys) L₀ L' := by
  simp only [clearStale, bind_eq_ok, ofOption_eq_ok] at hclear
  obtain ⟨ownerKey, _, ⟨howner, rfl⟩, d, _, hd, p, _, hp, info, _, ⟨hinfo, rfl⟩, hclear⟩ := hclear
  obtain ⟨rfl, r, hd⟩ := fromAccount_ok hd
  obtain ⟨rfl, rest, hp⟩ := fromAccount_ok hp
  obtain rfl := hsupplied hinfo
  refine ⟨AList.lookup_isSome.1 (howner ▸ rfl), ?_⟩
  split_ifs at hclear with hne
  · have hforeign := clear_ok hclear
    obtain ⟨hkeys, d₀, r₀, hd₀, rfl⟩ := h.account.1 howner
    obtain ⟨-, p₀, rest₀, hp₀, hpa⟩ := h.page hk
    obtain ⟨p', rest', hp', haddress⟩ := hclears.within.stays hp₀
    have hpp : p'.address = p.address :=
      congrArg (·.1.address) (Option.some.inj (hp'.symm.trans hp))
    have hcleared : L.Within (· ∈ keys) (fun _ => False)
        (L.setContent info.pubkey (.storage { p with generation := d.generation } [])) := by
      refine Ledger.within_setPage hp rfl ?_
      rw [← hpp, haddress, hpa, ← hL.account hd₀]
      exact hkeys
    refine ⟨hclears.within.trans (hcleared.trans hforeign.within), fun k => ?_, fun k => ?_⟩
    · rw [hforeign.held_eq (fun _ => rfl) k, ← hclears.account k]
      refine Ledger.held_ethereum_setOther (Ledger.held_ethereum_of_storage hp) ?_ k
      exact fun {_ _} hc => by cases hc
    · rw [hforeign.accountExists_eq k, ← hclears.accountExists k]
      refine Ledger.accountExists_setOther (Ledger.accountExists_of_storage hp) ?_ k
      exact of_decide_eq_false rfl
  · obtain ⟨-, rfl⟩ := pure_eq_ok.1 hclear
    exact hclears

/-- What `new` makes of the supplied accounts. -/
structure Loads (operator : AccountMeta) (system : Option AccountMeta) (accounts : List AccountMeta)
    (L : Ledger) (S : ProgramAccountStorage) : Prop where
  opened : S.Opened
  clears : Clears (· ∈ S.solanaAccounts) L S.ledger
  supplied : ∀ {k}, k ∈ S.solanaAccounts ↔
    k ∈ (accounts ++ operator :: system.toList).map (·.pubkey)
  handle : ∀ {k d rest}, k ∈ S.solanaAccounts → L.held EthereumAccount k = some (d, rest) →
    S.ethereumAccounts.lookup d.address = some k
  formed : ∀ {k}, k ∈ S.solanaAccounts → L.accountExists k = true →
    (L.held EthereumAccount k).isSome = true

/-- **`new`** opens what was supplied, and clears no page but of what it opened. -/
theorem new_loads {clock : Clock} {operator : AccountMeta} {system : Option AccountMeta}
    {accounts : List AccountMeta} {S : ProgramAccountStorage} (hL : L.Placed)
    (h : new clock operator system accounts L = .ok S L') :
    S.ledger = L' ∧ Loads operator system accounts L S := by
  have hnamed : S.Named := new_named h
  simp only [new, bind_eq_ok, get_eq_ok] at h
  obtain ⟨handles, _, hopen, _, L₁, hclear, _, _, ⟨rfl, rfl⟩, hpure⟩ := h
  obtain ⟨rfl, hhandles⟩ := handlesOf_openHandles hL hopen
  obtain ⟨rfl, rfl⟩ := pure_eq_ok.1 hpure
  have hkeys {k : Pubkey} : k ∈ (ProgramAccountStorage.supplied operator system
      accounts).entries.map Sigma.fst ↔
      k ∈ ProgramAccountStorage.supplied operator system accounts := Iff.rfl
  have hcleared : Clears (· ∈ ProgramAccountStorage.supplied operator system accounts) L L₁ ∧
      ∀ e ∈ handles.storageAccounts.entries, e.1.1 ∈ handles.ethereumAccounts := by
    refine foldl_invariant (I := fun done _ L₁ =>
      Clears (· ∈ ProgramAccountStorage.supplied operator system accounts) L L₁ ∧
        ∀ e ∈ done, e.1.1 ∈ handles.ethereumAccounts) ?_
      ⟨⟨.refl, fun _ => rfl, fun _ => rfl⟩, fun _ he => (List.not_mem_nil he).elim⟩ hclear
    rintro done ⟨⟨a, i⟩, k⟩ rest _ L₂ u L₃ hentries ⟨hclears, hdone⟩ hstep
    have he : (⟨(a, i), k⟩ : (_ : Address × U256) × Pubkey) ∈ handles.storageAccounts.entries := by
      rw [hentries]
      exact List.mem_append_right _ List.mem_cons_self
    obtain ⟨ha, hclears'⟩ := hhandles.clearStale_ok hL hclears supplied_ok
      (AList.mem_lookup_iff.2 he) hstep
    refine ⟨hclears', fun e he => ?_⟩
    rcases List.mem_append.1 he with he | he
    · exact hdone e he
    · rw [List.mem_singleton.1 he]
      exact ha
  obtain ⟨hclears, howned⟩ := hcleared
  refine ⟨rfl, ⟨⟨fun {a k} ha => ?_, fun {a i k} hi => ?_, hnamed, hclears.within.placed hL⟩,
    hclears, mem_supplied, fun hk hd => hhandles.account.2 ⟨hkeys.2 hk, _, _, hd, rfl⟩,
    fun hk => hhandles.formed (hkeys.2 hk)⟩⟩
  · obtain ⟨hk, d, rest, hd, hda⟩ := hhandles.account.1 ha
    exact ⟨hkeys.1 hk, d, rest, (hclears.account k).trans hd, hda⟩
  · obtain ⟨-, p, rest, hp, hpa⟩ := hhandles.page hi
    obtain ⟨p', rest', hp', haddress⟩ := hclears.within.stays hp
    exact ⟨howned _ (AList.mem_lookup_iff.1 hi), p', rest', hp', haddress.trans hpa⟩

/-! ## Turning the locks -/

omit [Platform] [Runtime] in
/-- The keys of the Ethereum accounts with a handle. -/
def handleKeys (S : ProgramAccountStorage) : List Pubkey :=
  (S.ethereumAccounts.entries.map Sigma.fst).filterMap S.ethereumAccounts.lookup

variable {S S' : ProgramAccountStorage} {b : Bool}

omit [Platform] [Runtime] in
theorem mem_handleKeys : k ∈ S.handleKeys ↔ ∃ a, S.ethereumAccounts.lookup a = some k := by
  rw [handleKeys, List.mem_filterMap]
  exact ⟨fun ⟨a, _, ha⟩ => ⟨a, ha⟩, fun ⟨a, ha⟩ => ⟨a, AList.lookup_isSome.1 (ha ▸ rfl), ha⟩⟩

/-- **`block_accounts`** turns the locks of the accounts with a handle. -/
theorem Opened.blockAccounts_ok (hS : S.Opened) (h : blockAccounts b S = .ok u S') :
    S' = { S with ledger := S.ledger.locking b S.handleKeys } := by
  obtain ⟨_, _, hget, h⟩ := bind_eq_ok.1 h
  obtain ⟨rfl, rfl⟩ := get_eq_ok.1 hget
  refine foldl_invariant (I := fun done _ S₁ => S₁ =
    { S with ledger := S.ledger.locking b (done.filterMap S.ethereumAccounts.lookup) }) ?_ ?_ h
  · rintro done a rest _ S₁ _ S₂ - rfl hstep
    have hopened : (ProgramAccountStorage.mk S.toHandles S.operator S.clock S.solanaAccounts
        (S.ledger.locking b (done.filterMap S.ethereumAccounts.lookup))).Opened :=
      hS.of_within (K := fun _ => True) (P := fun _ => False)
        (Ledger.within_locking fun _ _ _ => trivial)
    obtain ⟨k, d, r, hk, -, hd, -, rfl⟩ := hopened.modifyAccount_ok hstep
    have hdone : (done ++ [a]).filterMap S.ethereumAccounts.lookup =
        done.filterMap S.ethereumAccounts.lookup ++ [k] := by
      rw [List.filterMap_append]
      exact congrArg _ (List.filterMap_cons_some hk)
    rw [hdone, ← Ledger.locking_locking, Ledger.locking_singleton hd]
    rfl
  · rw [List.filterMap_nil, Ledger.locking_nil]

/-- **`check_for_blocked_accounts`** passes where none of them is locked. -/
theorem Opened.checkForBlockedAccounts_ok (hS : S.Opened)
    (h : checkForBlockedAccounts S = .ok u S') :
    S = S' ∧ ∀ {a k}, S.ethereumAccounts.lookup a = some k → k ∉ S.ledger.locked := by
  obtain ⟨_, _, hget, h⟩ := bind_eq_ok.1 h
  obtain ⟨rfl, rfl⟩ := get_eq_ok.1 hget
  have hall : S = S' ∧ ∀ a ∈ S.ethereumAccounts.entries.map Sigma.fst, ∀ k,
      S.ethereumAccounts.lookup a = some k → k ∉ S.ledger.locked := by
    refine foldl_invariant (I := fun done _ S₁ => S = S₁ ∧ ∀ a ∈ done, ∀ k,
      S.ethereumAccounts.lookup a = some k → k ∉ S.ledger.locked) ?_
      ⟨rfl, fun _ ha => (List.not_mem_nil ha).elim⟩ h
    rintro done a rest _ _ _ S₂ - ⟨rfl, hdone⟩ hstep
    obtain ⟨account, _, haccount, hstep⟩ := bind_eq_ok.1 hstep
    obtain ⟨rfl, hhandle⟩ := hS.ethereumAccountMut_ok haccount
    obtain ⟨hfree, rfl⟩ := failIf_eq_ok.1 hstep
    refine ⟨rfl, fun c hc k hk hlocked => ?_⟩
    rcases List.mem_append.1 hc with hc | hc
    · exact hdone c hc k hk hlocked
    · rw [List.mem_singleton.1 hc] at hk
      obtain rfl := Option.some.inj (hhandle.lookup.symm.trans hk)
      rw [Ledger.mem_locked_iff hhandle.held, hfree] at hlocked
      exact nomatch hlocked
  exact ⟨hall.1, fun {a k} hk => hall.2 a (AList.lookup_isSome.1 (hk ▸ rfl)) k hk⟩

/-! ## Paying for gas -/

/-- **A payment for gas** turns no lock and bypasses the storage, of the operator's account too. -/
theorem transferGasPayment_touches {origin : Address} {info : AccountMeta}
    {operator : EthereumAccount} {rest : Bytes} {value : U256}
    (hoperator : operator.address ∉ S.ethereumAccounts → info.pubkey ∉ S.solanaAccounts ∧
      ∃ b, S.ledger.held EthereumAccount info.pubkey = some ({ operator with balance := b }, rest))
    (h : transferGasPayment origin info operator rest value S = .ok u S') : Touches S S' := by
  unfold transferGasPayment at h
  simp only [bind_eq_ok, get_eq_ok, ofOption_eq_ok, failIf_eq_ok] at h
  obtain ⟨_, _, ⟨rfl, rfl⟩, _, _, ⟨-, rfl⟩, _, _, ⟨-, rfl⟩, h⟩ := h
  split_ifs at h with hself hloaded
  · obtain ⟨-, rfl⟩ := pure_eq_ok.1 h
    exact refl_of Touches S
  · exact returns_touches_transferNeonTokens _ _ _ _ _ _ h
  · obtain ⟨_, S₁, hmodify, h⟩ := bind_eq_ok.1 h
    obtain ⟨_, _, hassert, h⟩ := bind_eq_ok.1 h
    obtain ⟨-, rfl⟩ := assertThat_eq_ok.1 hassert
    obtain ⟨L, hL, rfl⟩ := zoom_eq_ok.1 h
    obtain rfl := modify_eq_ok.1 hL
    intro hS
    obtain ⟨hworked, hbypasses⟩ := returns_touches_modifyAccount
      (f := fun d => { d with balance := d.balance - value }) (fun _ => ⟨rfl, rfl, rfl, rfl⟩) _ _ _ _
      hmodify hS
    obtain ⟨hk, b, hd⟩ := hoperator hloaded
    obtain ⟨d', rest', hd', -, hframe⟩ := hworked.within.account hd
    obtain ⟨heq, rfl⟩ := hframe hk
    refine ⟨hworked.trans (works_of_ledger (fun _ => ⟨?_, ?_⟩) hworked.opened),
      hbypasses.trans (Ledger.bypasses_setAccount hd' ?_ ?_ ?_)⟩
    · exact Ledger.within_setAccount hd' (by rw [heq]) fun _ => ⟨by rw [heq], rfl⟩
    · exact Ledger.locked_setAccount hd' (by rw [heq])
    all_goals rw [heq]

end ProgramAccountStorage

end NeonEvm
