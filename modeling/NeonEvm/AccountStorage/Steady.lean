import NeonEvm.AccountStorage.Slots

/-!
# AccountStorage/Steady — what leaves the storage of contracts alone

    Keeps L L'     every slot as before, every account and page of its generation
    Steady S S'    the same, for the maps of handles over the ledger

Invocations of other programs, transfers, nonces, locks, new accounts and resizing are all steady;
what is not is in `AccountStorage/Writes`.
-/

namespace NeonEvm

open Exec Packable EthereumStorage

/-- An invocation of a program that is not ours. -/
def Invocation.IsForeign [Runtime] : Invocation → Prop
  | .external instruction => instruction.programId ≠ programId
  | _ => True

/-- The rules of the runtime: only a program itself changes its accounts, and an account that comes
to it is blank. -/
class Runtime.Lawful [Platform] [Runtime] : Prop where
  systemProgramId_ne : Platform.systemProgramId ≠ programId
  keeps {i : Invocation} {seeds : List Bytes} {L L' : Ledger} {k : Pubkey} (hi : i.IsForeign)
    (h : Runtime.invoke i seeds L = .ok L') (howner : (L k).owner = programId) :
    (L' k).owner = programId ∧ (L' k).content = (L k).content
  born {i : Invocation} {seeds : List Bytes} {L L' : Ledger} {k : Pubkey} (hi : i.IsForeign)
    (h : Runtime.invoke i seeds L = .ok L') (howner : (L k).owner ≠ programId)
    (howner' : (L' k).owner = programId) : (L' k).content.IsBlank

variable [Platform] [Runtime]

/-- No two Ethereum accounts share a key, and no page has the key of an Ethereum account. -/
structure AddressesApart : Prop where
  injective : ∀ {a b : Address}, a.key = b.key → a = b
  ne_page : ∀ {a b : Address} {page : U256}, a.key ≠ b.pageKey page

namespace Ledger

/-- The slots and the generations are the same. -/
structure Kept (L L' : Ledger) : Prop where
  sound : L'.Sound
  slot : ∀ a i, L'.slot a i = L.slot a i
  account : ∀ {a e}, L.account a = some e →
    ∃ e', L'.account a = some e' ∧ e'.1.generation = e.1.generation
  page : ∀ {a i p}, L.page a i = some p →
    ∃ p', L'.page a i = some p' ∧ p'.1.generation = p.1.generation

/-- A step from a sound ledger keeps the storage. -/
def Keeps (L L' : Ledger) : Prop := L.Sound → L.Kept L'

theorem keeps_refl (L : Ledger) : L.Keeps L := fun hL =>
  ⟨hL, fun _ _ => rfl, fun h => ⟨_, h, rfl⟩, fun h => ⟨_, h, rfl⟩⟩

theorem Kept.trans {L L' L'' : Ledger} (h : L.Kept L') (h' : L'.Kept L'') : L.Kept L'' where
  sound := h'.sound
  slot a i := (h'.slot a i).trans (h.slot a i)
  account he := by
    obtain ⟨e', he', hg'⟩ := h.account he
    obtain ⟨e'', he'', hg''⟩ := h'.account he'
    exact ⟨e'', he'', hg''.trans hg'⟩
  page hp := by
    obtain ⟨p', hp', hg'⟩ := h.page hp
    obtain ⟨p'', hp'', hg''⟩ := h'.page hp'
    exact ⟨p'', hp'', hg''.trans hg'⟩

instance : Std.Refl Keeps := ⟨keeps_refl⟩

instance : IsTrans Ledger Keeps := ⟨fun _ _ _ h h' hL => (h hL).trans (h' (h hL).sound)⟩

/-- What other programs may change: nothing of ours, and what comes to us is blank. -/
structure Foreign (L L' : Ledger) : Prop where
  keeps : ∀ {k}, (L k).owner = programId →
    (L' k).owner = programId ∧ (L' k).content = (L k).content
  born : ∀ {k}, (L k).owner ≠ programId → (L' k).owner = programId → (L' k).content.IsBlank

instance : Std.Refl Foreign := ⟨fun _ => ⟨fun h => ⟨h, rfl⟩, fun h h' => (h h').elim⟩⟩

instance : IsTrans Ledger Foreign where
  trans L L' L'' h h' := by
    refine ⟨fun hk => ?_, fun {k} hk hk'' => ?_⟩
    · obtain ⟨hk', hcontent⟩ := h.keeps hk
      obtain ⟨hk'', hcontent'⟩ := h'.keeps hk'
      exact ⟨hk'', hcontent'.trans hcontent⟩
    · by_cases hk' : (L' k).owner = programId
      · rw [(h'.keeps hk').2]
        exact h.born hk hk'
      · exact h'.born hk' hk''

variable {L L' : Ledger} {k : Pubkey}

/-- **The same views** hold the same storage. -/
theorem keeps_of_held (haccount : ∀ k, L'.held EthereumAccount k = L.held EthereumAccount k)
    (hpage : ∀ k, L'.held EthereumStorage k = L.held EthereumStorage k) : L.Keeps L' := by
  have ha : ∀ a, L'.account a = L.account a := fun a => by rw [account, account, haccount]
  have hp : ∀ a i, L'.page a i = L.page a i := fun a i => by rw [page, page, hpage]
  refine fun hL => ⟨⟨fun h => hL.account (haccount _ ▸ h), fun h => ?_⟩,
    fun a i => slot_congr (ha a) (hp a _), fun h => ⟨_, (ha _).trans h, rfl⟩,
    fun h => ⟨_, (hp _ _).trans h, rfl⟩⟩
  rw [hpage] at h
  rw [ha]
  exact hL.page h

omit [Platform] in
/-- A change of lamports. -/
theorem foreign_setLamports {lamports : ℕ} : L.Foreign (L.setLamports k lamports) := by
  refine ⟨fun h => ⟨?_, content_setLamports⟩, fun h h' => (h ?_).elim⟩
  · rwa [owner_setLamports]
  · rwa [owner_setLamports] at h'

omit [Platform] in
theorem Foreign.held_eq {τ : Type} [Packable τ] (h : L.Foreign L')
    (hraw : ∀ data, split (.raw data) = (none : Option (τ × Bytes))) (k : Pubkey) :
    L'.held τ k = L.held τ k := by
  rw [held, held]
  by_cases howner : (L k).owner = programId
  · obtain ⟨howner', hcontent⟩ := h.keeps howner
    rw [if_pos howner, if_pos howner', hcontent]
  · rw [if_neg howner]
    split_ifs with howner'
    · obtain ⟨n, hn⟩ := h.born howner howner'
      rw [hn, hraw]
    · rfl

theorem Foreign.account_eq (h : L.Foreign L') (a : Address) : L'.account a = L.account a := by
  rw [account, account, h.held_eq fun _ => rfl]

theorem Foreign.page_eq (h : L.Foreign L') (a : Address) (i : U256) : L'.page a i = L.page a i := by
  rw [page, page, h.held_eq fun _ => rfl]

/-- **Other programs** leave the storage alone. -/
theorem Foreign.keeps_storage (h : L.Foreign L') : L.Keeps L' :=
  keeps_of_held (h.held_eq fun _ => rfl) (h.held_eq fun _ => rfl)

/-- **Rewriting an account** with the same slots in it. -/
theorem keeps_setAccount {d d' : EthereumAccount} {rest rest' : Bytes}
    (hd : L.held EthereumAccount k = some (d, rest)) (haddress : d'.address = d.address)
    (hgeneration : d'.generation = d.generation) (hfits : d.Fits rest → d'.Fits rest')
    (hword : d.Fits rest → ∀ i < STORAGE_ENTRIES_IN_CONTRACT_ACCOUNT,
      wordAt (d'.statics rest') i = wordAt (d.statics rest) i) :
    L.Keeps (L.setContent k (.ethereum d' rest')) := by
  intro hL
  obtain ⟨hk, hf⟩ := hL.account hd
  have howner := (held_ethereum.1 hd).1
  have hk' : k = d'.address.key := haddress ▸ hk
  have hold : ∀ e ∈ L.held EthereumAccount k,
      e.1.address = d'.address ∧ e.1.generation ≤ d'.generation := by
    intro e he
    obtain rfl := Option.some.inj (hd.symm.trans he)
    exact ⟨haddress.symm, hgeneration.ge⟩
  have haccount : ∀ b, (L.setContent k (.ethereum d' rest')).account b =
      if b = d'.address then some (d', rest') else L.account b := fun b =>
    account_setAccount hk' howner fun e he => (hold e he).1
  have hpage : ∀ b j, (L.setContent k (.ethereum d' rest')).page b j = L.page b j := fun b j =>
    page_setAccount (held_storage_of_ethereum hd)
  have hbefore := hL.account_of_held hd
  refine ⟨hL.setAccount hk' howner hold (hfits hf), fun b i => ?_, fun {b e} he => ?_, fun hp => ?_⟩
  · by_cases hb : b = d'.address
    · rw [slot_eq ((haccount b).trans (if_pos hb)),
        slot_eq ((congrArg L.account (hb.trans haddress)).trans hbefore), hpage, hgeneration]
      split_ifs with hi
      · exact hword hf _ hi
      · rfl
    · exact slot_congr ((haccount b).trans (if_neg hb)) (hpage b _)
  · by_cases hb : b = d'.address
    · refine ⟨_, (haccount b).trans (if_pos hb), ?_⟩
      rw [← Option.some.inj (((congrArg L.account (hb.trans haddress)).trans hbefore).symm.trans he)]
      exact hgeneration
    · exact ⟨e, ((haccount b).trans (if_neg hb)).trans he, rfl⟩
  · exact ⟨_, (hpage _ _).trans hp, rfl⟩

/-- **A new account** has no storage. -/
theorem keeps_newAccount {a : Address} {bumpSeed : UInt8} {n : ℕ} (hk : k = a.key)
    (howner : (L k).owner = programId) (haccount : L.held EthereumAccount k = none)
    (hpage : L.held EthereumStorage k = none) :
    L.Keeps (L.setContent k (.ethereum (.new a bumpSeed) (List.replicate n 0))) := by
  intro hL
  have hnone : L.account a = none := by rw [account, ← hk, haccount]; rfl
  have hpages : ∀ i, L.page a i = none := by
    intro i
    rw [Option.eq_none_iff_forall_ne_some]
    rintro ⟨p, r⟩ hp
    obtain ⟨hheld, haddress, -⟩ := page_eq_some.1 hp
    obtain ⟨-, -, d, r, hd, -⟩ := hL.page hheld
    rw [show p.address = a from haddress, hnone] at hd
    cases hd
  set L' := L.setContent k (.ethereum (.new a bumpSeed) (List.replicate n 0)) with hL'
  have haccount' : ∀ b, L'.account b =
      if b = a then some (.new a bumpSeed, List.replicate n 0) else L.account b := fun b =>
    account_setAccount hk howner fun e he => by rw [haccount] at he; cases he
  have hpage' : ∀ b j, L'.page b j = L.page b j := fun b j => page_setAccount hpage
  refine ⟨hL.setAccount hk howner (fun e he => by rw [haccount] at he; cases he)
    ⟨fun _ _ => List.eq_of_mem_replicate, fun h => (h rfl).elim⟩, fun b i => ?_, fun {b e} he => ?_,
    fun hp => ⟨_, (hpage' _ _).trans hp, rfl⟩⟩
  · by_cases hb : b = a
    · rw [slot_eq ((haccount' b).trans (if_pos hb)), hpage', hb, hpages,
        slot_of_account_eq_none hnone]
      split_ifs
      · rw [EthereumAccount.statics_of_codeSize rfl, wordAt_nil]
      · rfl
    · exact slot_congr ((haccount' b).trans (if_neg hb)) (hpage' b _)
  · have hb : b ≠ a := by
      rintro rfl
      rw [hnone] at he
      cases he
    exact ⟨e, ((haccount' b).trans (if_neg hb)).trans he, rfl⟩

end Ledger

/-! ## Computations on the ledger -/

section

open Ledger

variable {L L' : Ledger} {u : Unit}

theorem returns_minimumBalance (len : ℕ) : Returns Foreign (minimumBalance len) :=
  (moves_lift _).returns

omit [Platform] in
theorem returns_accountAt (k : Pubkey) : Returns Foreign (accountAt k) := (moves_gets _).returns

variable [Runtime.Lawful]

theorem returns_invokeSigned {i : Invocation} (seeds : List Bytes) (hi : i.IsForeign) :
    Returns Foreign (invokeSigned i seeds) := by
  intro L u L' h
  unfold invokeSigned at h
  split at h
  · cases h
    exact ⟨Runtime.Lawful.keeps hi ‹_›, Runtime.Lawful.born hi ‹_›⟩
  · cases h

theorem returns_systemTransfer (source target : Pubkey) (lamports : ℕ) :
    Returns Foreign (systemTransfer source target lamports) :=
  returns_invokeSigned (i := .transfer ..) _ trivial

theorem returns_topUp (payer key : Pubkey) (lamports : ℕ) :
    Returns Foreign (topUp payer key lamports) :=
  returns_ite (fun _ => returns_systemTransfer _ _ _) fun _ => (moves_pure ()).returns

theorem returns_createPdaAccount (owner payer newAccount : Pubkey) (seeds : List Bytes)
    (space : ℕ) : Returns Foreign (createPdaAccount owner payer newAccount seeds space) := by
  refine returns_bind (returns_minimumBalance _) fun _ => returns_bind (returns_accountAt _) fun _ =>
    returns_ite (fun _ => ?_) fun _ => returns_invokeSigned (i := .createAccount ..) _ trivial
  refine returns_bind (returns_topUp _ _ _) fun _ => ?_
  exact returns_bind (returns_invokeSigned (i := .allocate ..) _ trivial) fun _ =>
    returns_invokeSigned (i := .assign ..) _ trivial

theorem returns_createAccountWithSeed (payer base owner newAccount : Pubkey)
    (contract : EthereumAccount) (seed : Bytes) (space : ℕ) :
    Returns Foreign (createAccountWithSeed payer base contract owner newAccount seed space) := by
  refine returns_bind (returns_minimumBalance _) fun _ => returns_bind (returns_accountAt _) fun _ =>
    returns_ite (fun _ => ?_) fun _ => returns_invokeSigned (i := .createAccountWithSeed ..) _ trivial
  refine returns_bind (returns_topUp _ _ _) fun _ => ?_
  exact returns_bind (returns_invokeSigned (i := .allocateWithSeed ..) _ trivial) fun _ =>
    returns_invokeSigned (i := .assignWithSeed ..) _ trivial

end

/-! ## New headers and larger accounts -/

section

open Ledger

variable {L L' : Ledger} {u : Unit}

/-- **A new header** takes the place of blank data. -/
theorem initAccount_ok {τ : Type} [Packable τ] {info : AccountMeta} {d : τ}
    (h : initAccount info d L = .ok u L') :
    (L info.pubkey).owner = programId ∧ (L info.pubkey).content.tag = some TAG_EMPTY ∧
      L' = L.setContent info.pubkey
        (content d (List.replicate ((L info.pubkey).content.len - SIZE τ) 0)) := by
  simp only [initAccount, accountAt, minimumBalance, bind_eq_ok, gets_eq_ok, failIf_eq_ok,
    lift_eq_ok, modify_eq_ok] at h
  obtain ⟨_, _, ⟨rfl, rfl⟩, _, _, ⟨howner, rfl⟩, _, _, ⟨-, rfl⟩, _, _, ⟨-, rfl⟩, _, _, ⟨-, rfl⟩,
    _, _, ⟨-, rfl⟩, _, _, ⟨htag, rfl⟩, rfl⟩ := h
  exact ⟨by simpa using howner, by simpa using htag, rfl⟩

omit [Platform] in
theorem held_eq_none_of_tag {τ : Type} [Packable τ] {k : Pubkey}
    (h : (L k).content.tag = some TAG_EMPTY)
    (hsplit : ∀ c : Content, c.tag = some TAG_EMPTY → split c = (none : Option (τ × Bytes))) :
    L.held τ k = none := by
  rw [held]
  split_ifs
  · exact hsplit _ h
  · rfl

/-- **A new Ethereum account** has no storage. -/
theorem returns_initAccount {a : Address} {bumpSeed : UInt8} {info : AccountMeta}
    (hk : info.pubkey = a.key) :
    Returns Keeps (initAccount info (EthereumAccount.new a bumpSeed)) := by
  intro L u L' h
  obtain ⟨howner, htag, rfl⟩ := initAccount_ok h
  exact keeps_newAccount hk howner (held_eq_none_of_tag htag Content.split_ethereum_of_tag)
    (held_eq_none_of_tag htag Content.split_storage_of_tag)

/-- **Growing an account** adds zeros behind its rest. -/
theorem keeps_realloc (hapart : AddressesApart) {a : Address} {space : ℕ}
    (hspace : (L a.key).content.len ≤ space) :
    L.Keeps (L.setContent a.key ((L a.key).content.realloc space)) := by
  intro hL
  rcases hd : L.held EthereumAccount a.key with _ | ⟨d, rest⟩
  · have hp : L.held EthereumStorage a.key = none :=
      Option.eq_none_iff_forall_ne_some.2 fun p h => hapart.ne_page (hL.page h).1
    have held_eq : ∀ (τ : Type) [Packable τ], L.held τ a.key = none →
        (∀ c : Content, split c = (none : Option (τ × Bytes)) →
          split (c.realloc space) = (none : Option (τ × Bytes))) →
        ∀ k, (L.setContent a.key ((L a.key).content.realloc space)).held τ k = L.held τ k := by
      intro τ _ hnone hsplit k
      rw [held_setContent]
      split_ifs with hk howner
      · rw [hk, hnone]
        rw [held, if_pos howner] at hnone
        exact hsplit _ hnone
      · rw [hk, hnone]
      · rfl
    exact keeps_of_held (held_eq _ hd Content.split_ethereum_realloc)
      (held_eq _ hp Content.split_storage_realloc) hL
  · rw [(held_ethereum.1 hd).2] at hspace ⊢
    have hlen : rest.length ≤ space - SIZE EthereumAccount := Nat.le_sub_of_add_le' hspace
    rw [Content.realloc, resizeBytes_of_le hlen]
    exact keeps_setAccount hd rfl rfl (fun h => h.append _)
      (fun h i _ => by rw [h.statics_append]) hL

end

end NeonEvm
