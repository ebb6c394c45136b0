import NeonEvm.AccountStorage.Steady

/-!
# AccountStorage/Coherent — the handles of an instruction are those of the ledger

    Coherent S     every handle is of the account or the page it is filed under
    FreshAt a      the pages of a that are loaded are of its generation

`new` makes handles that are coherent and fresh without changing a slot, and from such handles
`storage` reads what the ledger holds.
-/

namespace NeonEvm

open Exec Packable EthereumStorage

variable [Platform] [Runtime]

namespace ProgramAccountStorage

/-- The handles are filed under what they are handles of. -/
structure Coherent (S : ProgramAccountStorage) : Prop where
  sound : S.ledger.Sound
  ethereum : ∀ {a k}, S.ethereumAccounts.lookup a = some k →
    k = a.key ∧ ∃ e, S.ledger.account a = some e
  storage : ∀ {a i k}, S.storageAccounts.lookup (a, i) = some k →
    k = a.pageKey i ∧ ∃ p, S.ledger.page a i = some p

/-- The pages of `a` that are loaded are of its generation. -/
def FreshAt (S : ProgramAccountStorage) (a : Address) : Prop :=
  ∀ {i p e}, (a, i) ∈ S.storageAccounts → S.ledger.page a i = some p →
    S.ledger.account a = some e → p.1.generation = e.1.generation

/-- The slots are the same, and what was fresh still is. -/
structure Steadied (S S' : ProgramAccountStorage) : Prop where
  coherent : S'.Coherent
  supplied : S'.solanaAccounts = S.solanaAccounts
  slot : ∀ a i, S'.ledger.slot a i = S.ledger.slot a i
  fresh : ∀ {a}, S.FreshAt a → S'.FreshAt a

/-- A step from coherent handles keeps the storage. -/
def Steady (S S' : ProgramAccountStorage) : Prop := S.Coherent → S.Steadied S'

instance : Std.Refl Steady := ⟨fun _ hS => ⟨hS, rfl, fun _ _ => rfl, fun h => h⟩⟩

instance : IsTrans ProgramAccountStorage Steady where
  trans _ _ _ h h' hS :=
    ⟨(h' (h hS).coherent).coherent, ((h' (h hS).coherent).supplied).trans (h hS).supplied,
      fun a i => ((h' (h hS).coherent).slot a i).trans ((h hS).slot a i),
      fun ha => (h' (h hS).coherent).fresh ((h hS).fresh ha)⟩

variable {S S' : ProgramAccountStorage} {a : Address} {i : U256} {k : Pubkey}

/-! ## Handles -/

/-- **A handle of an account** is its account in the ledger. -/
theorem Coherent.handle (hS : S.Coherent) (hk : S.ethereumAccounts.lookup a = some k) :
    ∃ d rest, S.ledger.account a = some (d, rest) ∧
      S.ledger.handle? EthereumAccount k = some ⟨a.key, d, rest⟩ := by
  obtain ⟨rfl, ⟨d, rest⟩, he⟩ := hS.ethereum hk
  refine ⟨d, rest, he, ?_⟩
  rw [Ledger.handle?, (Ledger.held_ethereum.1 (Ledger.account_eq_some.1 he).1).2]
  rfl

/-- **A handle of a page** is its page in the ledger. -/
theorem Coherent.pageHandle (hS : S.Coherent) (hk : S.storageAccounts.lookup (a, i) = some k) :
    ∃ p rest, S.ledger.page a i = some (p, rest) ∧
      S.ledger.handle? EthereumStorage k = some ⟨a.pageKey i, p, rest⟩ := by
  obtain ⟨rfl, ⟨p, rest⟩, hp⟩ := hS.storage hk
  refine ⟨p, rest, hp, ?_⟩
  rw [Ledger.handle?, (Ledger.held_storage.1 (Ledger.page_eq_some.1 hp).1).2]
  rfl

theorem Coherent.bind_handle (hS : S.Coherent) {h : Handle EthereumAccount}
    (hh : (S.ethereumAccounts.lookup a).bind (S.ledger.handle? EthereumAccount) = some h) :
    h.key = a.key ∧ S.ledger.account a = some (h.data, h.rest) := by
  obtain ⟨k, hk, hhandle⟩ := Option.bind_eq_some_iff.1 hh
  obtain ⟨d, rest, he, hh'⟩ := hS.handle hk
  obtain rfl := Option.some.inj (hh'.symm.trans hhandle)
  exact ⟨rfl, he⟩

theorem ethereumAccountMut_ok (hS : S.Coherent) {h : Handle EthereumAccount}
    (hh : ethereumAccountMut a S = .ok h S') :
    S = S' ∧ h.key = a.key ∧ S.ledger.account a = some (h.data, h.rest) := by
  simp only [ethereumAccountMut, bind_eq_ok, get_eq_ok, ofOption_eq_ok] at hh
  obtain ⟨_, _, ⟨rfl, rfl⟩, hbind, rfl⟩ := hh
  exact ⟨rfl, hS.bind_handle hbind⟩

omit [Platform] [Runtime] in
theorem save_ok {τ : Type} [Packable τ] {h : Handle τ} {u : Unit} (hh : save h S = .ok u S') :
    S' = { S with ledger := S.ledger.setContent h.key (content h.data h.rest) } := by
  simp only [save, bind_eq_ok, get_eq_ok, ofOption_eq_ok, assertThat_eq_ok, onLedger, zoom_eq_ok,
    modify_eq_ok] at hh
  obtain ⟨_, _, ⟨rfl, rfl⟩, _, _, ⟨-, rfl⟩, _, _, ⟨-, rfl⟩, _, rfl, rfl⟩ := hh
  rfl

/-! ## Steady computations -/

/-- **A step of the ledger** that keeps its storage is steady. -/
theorem steady_of_keeps {L : Ledger} (h : S.ledger.Keeps L) : Steady S { S with ledger := L } := by
  intro hS
  have hL := h hS.sound
  refine ⟨⟨hL.sound, fun hk => ?_, fun hk => ?_⟩, rfl, hL.slot, fun {a} ha i p e hi hp he => ?_⟩
  · obtain ⟨hkey, e, he⟩ := hS.ethereum hk
    obtain ⟨e', he', -⟩ := hL.account he
    exact ⟨hkey, e', he'⟩
  · obtain ⟨hkey, p, hp⟩ := hS.storage hk
    obtain ⟨p', hp', -⟩ := hL.page hp
    exact ⟨hkey, p', hp'⟩
  · obtain ⟨k, hk⟩ := Option.isSome_iff_exists.1 (AList.lookup_isSome.2 hi)
    obtain ⟨-, p₀, hp₀⟩ := hS.storage hk
    obtain ⟨p', hp', hpg⟩ := hL.page hp₀
    obtain rfl := Option.some.inj (hp'.symm.trans hp)
    obtain ⟨-, -, ⟨d₀, r₀, he₀, -⟩⟩ := hS.sound.page (Ledger.page_eq_some.1 hp₀).1
    rw [(Ledger.page_eq_some.1 hp₀).2.1] at he₀
    obtain ⟨e', he', heg⟩ := hL.account he₀
    obtain rfl := Option.some.inj (he'.symm.trans he)
    rw [hpg, heg]
    exact ha hi hp₀ he₀

theorem returns_onLedger {α : Type} {x : Program α} (h : Returns Ledger.Keeps x) :
    Returns Steady (onLedger x) := by
  intro S b S' hx
  obtain ⟨L, hL, rfl⟩ := zoom_eq_ok.1 hx
  exact steady_of_keeps (h _ _ _ hL)

theorem returns_onLedger_foreign {α : Type} {x : Program α} (h : Returns Ledger.Foreign x) :
    Returns Steady (onLedger x) :=
  returns_onLedger fun L a L' hx => (h L a L' hx).keeps_storage

/-- **Changing a header** in what storage does not depend on. -/
theorem returns_modifyAccount {f : EthereumAccount → EthereumAccount}
    (haddress : ∀ d, (f d).address = d.address) (hgeneration : ∀ d, (f d).generation = d.generation)
    (hcode : ∀ d, (f d).codeSize = d.codeSize) (a : Address) :
    Returns Steady (modifyAccount a f) := by
  intro S u S' h hS
  obtain ⟨account, _, haccount, hsave⟩ := bind_eq_ok.1 h
  obtain ⟨rfl, hkey, he⟩ := ethereumAccountMut_ok hS haccount
  obtain rfl := save_ok hsave
  have hheld := (Ledger.account_eq_some.1 he).1
  rw [← hkey] at hheld
  refine steady_of_keeps (Ledger.keeps_setAccount hheld (haddress _) (hgeneration _) ?_ ?_) hS
  · exact fun hf => ⟨fun h => hf.blank (hcode account.data ▸ h), fun h => by
      rw [hcode] at h ⊢
      exact hf.room h⟩
  · exact fun _ i _ => by rw [EthereumAccount.statics, hcode]; rfl

end ProgramAccountStorage

/-! ## Opening the accounts -/

section

variable {L L' : Ledger} {a : Address} {i : U256} {k : Pubkey}

omit [Platform] in
theorem openAccount_ok {τ : Type} [Packable τ] {e : τ × Bytes} (h : openAccount τ k L = .ok e L') :
    L = L' ∧ L.held τ k = some e := by
  simp only [openAccount, accountAt, bind_eq_ok, gets_eq_ok, failIf_eq_ok] at h
  obtain ⟨_, _, ⟨rfl, rfl⟩, _, _, ⟨howner, rfl⟩, _, _, ⟨-, rfl⟩, h⟩ := h
  have howner : (L k).owner = programId := by simpa using howner
  rw [Ledger.held, if_pos howner]
  rcases hsplit : (split (L k).content : Option (τ × Bytes)) with _ | opened
  · rw [hsplit] at h
    exact (fail_eq_ok.1 h).elim
  · rw [hsplit] at h
    obtain ⟨rfl, rfl⟩ := pure_eq_ok.1 h
    exact ⟨rfl, rfl⟩

omit [Platform] in
theorem fromAccount_ok {τ : Type} [Packable τ] {d : τ} (h : fromAccount τ k L = .ok d L') :
    L = L' ∧ ∃ rest, L.held τ k = some (d, rest) := by
  obtain ⟨⟨d', rest⟩, u, hopen, hpure⟩ := bind_eq_ok.1 h
  obtain ⟨rfl, hheld⟩ := openAccount_ok hopen
  obtain ⟨rfl, rfl⟩ := pure_eq_ok.1 hpure
  exact ⟨rfl, rest, hheld⟩

/-- **Clearing a stale page** changes no slot: there was nothing to be read in it. -/
theorem Ledger.Sound.clearPage (hL : L.Sound) {p : EthereumStorage} {d : EthereumAccount}
    {rest r : Bytes} (hp : L.page a i = some (p, rest)) (hd : L.account a = some (d, r))
    (hne : p.generation ≠ d.generation)
    (hL' : L' = L.setContent (a.pageKey i) (.storage { p with generation := d.generation } [])) :
    L'.Sound ∧ (∀ b, L'.account b = L.account b) ∧
      (∀ b j, L'.page b j =
        if b = a ∧ j = i then some ({ p with generation := d.generation }, []) else L.page b j) ∧
      ∀ b j, L'.slot b j = L.slot b j := by
  obtain ⟨hheld, rfl, rfl⟩ := page_eq_some.1 hp
  set q : EthereumStorage := { p with generation := d.generation } with hq
  have haccount : ∀ b, (L.setContent (p.address.pageKey p.index) (.storage q [])).account b =
      L.account b := fun b => account_setPage (held_ethereum_of_storage hheld)
  have hpage : ∀ b j, (L.setContent (p.address.pageKey p.index) (.storage q [])).page b j =
      if b = q.address ∧ j = q.index then some (q, []) else L.page b j := fun b j =>
    page_setPage rfl (held_storage.1 hheld).1 fun e he => by
      obtain rfl := Option.some.inj (hheld.symm.trans he)
      exact ⟨rfl, rfl⟩
  subst hL'
  refine ⟨hL.setPage rfl (held_ethereum_of_storage hheld) isRow_nil ⟨d, r, hd, le_rfl⟩, haccount,
    hpage, fun b j => ?_⟩
  by_cases hb : b = p.address ∧ pageOf j = p.index
  · have hbefore : paged d.generation (some (p, rest)) j = 0 := if_neg hne
    have hafter : paged d.generation (some ({ p with generation := d.generation }, [])) j = 0 :=
      (if_pos rfl).trans get_nil
    rw [hb.1, slot_eq hd, slot_eq ((haccount _).trans hd), hb.2, hp,
      (hpage _ _).trans (if_pos ⟨rfl, rfl⟩), hbefore, hafter]
  · exact slot_congr (haccount b) ((hpage b _).trans (if_neg hb))

namespace ProgramAccountStorage

/-- The handles are filed under what they are handles of. -/
structure FiledIn (L : Ledger) (handles : Handles) : Prop where
  ethereum : ∀ {a k}, handles.ethereumAccounts.lookup a = some k →
    ∃ d rest, L.held EthereumAccount k = some (d, rest) ∧ d.address = a
  storage : ∀ {a i k}, handles.storageAccounts.lookup (a, i) = some k →
    ∃ p rest, L.held EthereumStorage k = some (p, rest) ∧ p.address = a ∧ p.index = i

omit [Platform] in
theorem filedIn_empty : FiledIn L ⟨∅, ∅⟩ :=
  ⟨fun h => by simp at h, fun h => by simp at h⟩

omit [Platform] in
theorem openHandle_ok {handles handles' : Handles} (hfiled : FiledIn L handles)
    (h : openHandle handles k L = .ok handles' L') : L = L' ∧ FiledIn L handles' := by
  simp only [openHandle, accountAt, bind_eq_ok, gets_eq_ok] at h
  obtain ⟨_, _, ⟨rfl, rfl⟩, h⟩ := h
  split_ifs at h with howner htag htag'
  · obtain ⟨rfl, rfl⟩ := pure_eq_ok.1 h
    exact ⟨rfl, hfiled⟩
  · obtain ⟨d, _, hopen, hpure⟩ := bind_eq_ok.1 h
    obtain ⟨rfl, rest, hheld⟩ := fromAccount_ok hopen
    obtain ⟨rfl, rfl⟩ := pure_eq_ok.1 hpure
    refine ⟨rfl, ⟨fun {a k'} hk' => ?_, hfiled.storage⟩⟩
    by_cases ha : a = d.address
    · rw [ha, AList.lookup_insert, Option.some.injEq] at hk'
      exact ⟨d, rest, hk' ▸ hheld, ha.symm⟩
    · rw [AList.lookup_insert_ne ha] at hk'
      exact hfiled.ethereum hk'
  · obtain ⟨p, _, hopen, hpure⟩ := bind_eq_ok.1 h
    obtain ⟨rfl, rest, hheld⟩ := fromAccount_ok hopen
    obtain ⟨rfl, rfl⟩ := pure_eq_ok.1 hpure
    refine ⟨rfl, ⟨hfiled.ethereum, fun {a i k'} hk' => ?_⟩⟩
    by_cases ha : (a, i) = (p.address, p.index)
    · rw [ha, AList.lookup_insert, Option.some.injEq] at hk'
      obtain ⟨rfl, rfl⟩ := Prod.mk.inj ha
      exact ⟨p, rest, hk' ▸ hheld, rfl, rfl⟩
    · rw [AList.lookup_insert_ne ha] at hk'
      exact hfiled.storage hk'
  · obtain ⟨rfl, rfl⟩ := pure_eq_ok.1 h
    exact ⟨rfl, hfiled⟩

omit [Platform] in
/-- **Opening the accounts** leaves them alone. -/
theorem openHandles_ok {keys : List Pubkey} {handles : Handles}
    (h : foldl openHandle ⟨∅, ∅⟩ keys L = .ok handles L') : L = L' ∧ FiledIn L handles := by
  refine foldl_invariant (I := fun _ handles L₁ => L = L₁ ∧ FiledIn L handles) ?_
    ⟨rfl, filedIn_empty⟩ h
  rintro _ _ _ handles _ handles' L₂ - ⟨rfl, hfiled⟩ hopen
  exact openHandle_ok hfiled hopen

/-- What clearing has done after some of the loaded pages: `fresh` holds of those. -/
structure Clearing (L : Ledger) (fresh : Address × U256 → Prop) (L' : Ledger) : Prop where
  sound : L'.Sound
  account : ∀ b, L'.account b = L.account b
  slot : ∀ b j, L'.slot b j = L.slot b j
  page : ∀ b j, (L'.page b j).isSome = (L.page b j).isSome
  fresh : ∀ {b j p e}, fresh (b, j) → L'.page b j = some p → L'.account b = some e →
    p.1.generation = e.1.generation

theorem clear_ok {info : AccountMeta} {p : EthereumStorage} {generation : ℕ} {operator : Pubkey}
    {u : Unit} (h : p.clear info generation operator L = .ok u L') :
    (L.setContent info.pubkey (.storage { p with generation } [])).Foreign L' := by
  simp only [EthereumStorage.clear, minimumBalance, accountAt, bind_eq_ok, assertThat_eq_ok,
    modify_eq_ok, lift_eq_ok, gets_eq_ok] at h
  obtain ⟨_, _, ⟨-, rfl⟩, _, _, rfl, _, _, ⟨-, rfl⟩, _, _, ⟨rfl, rfl⟩, h⟩ := h
  split_ifs at h
  · obtain ⟨_, _, hx, hy⟩ := bind_eq_ok.1 h
    obtain rfl := modify_eq_ok.1 hx
    obtain rfl := modify_eq_ok.1 hy
    exact Trans.trans (Ledger.foreign_setLamports (k := info.pubkey)) Ledger.foreign_setLamports
  · obtain ⟨-, rfl⟩ := pure_eq_ok.1 h
    exact refl_of Ledger.Foreign _

/-- **A turn of the clearing.** -/
theorem clearStale_ok {handles : Handles} {supplied : HashMap Pubkey AccountMeta}
    (hsupplied : ∀ {k info}, supplied.lookup k = some info → info.pubkey = k)
    {operator : Pubkey} {fresh : Address × U256 → Prop} {L₀ : Ledger} {u : Unit}
    (hC : Clearing L₀ fresh L) (hfiled : FiledIn L₀ handles) (hsound : L₀.Sound)
    (hk : handles.storageAccounts.lookup (a, i) = some k)
    (h : clearStale handles supplied operator a k L = .ok u L') :
    Clearing L₀ (fun x => fresh x ∨ x = (a, i)) L' := by
  simp only [clearStale, bind_eq_ok, ofOption_eq_ok] at h
  obtain ⟨ownerKey, _, ⟨howner, rfl⟩, d, _, hd, p, _, hp, info, _, ⟨hinfo, rfl⟩, h⟩ := h
  obtain ⟨rfl, r, hd⟩ := fromAccount_ok hd
  obtain ⟨rfl, rest, hp⟩ := fromAccount_ok hp
  obtain rfl := hsupplied hinfo
  -- the two handles are the account and the page that are filed there
  obtain ⟨d₀, r₀, hd₀, rfl⟩ := hfiled.ethereum howner
  obtain ⟨p₀, rest₀, hp₀, hpa, rfl⟩ := hfiled.storage hk
  have hd' : L.account d₀.address = some (d, r) := by
    have h₀ := (hC.account d₀.address).trans (hsound.account_of_held hd₀)
    have h₁ := (Ledger.account_eq_some.1 h₀).1
    rw [← (hsound.account hd₀).1] at h₁
    rw [h₀, h₁.symm.trans hd]
  have hp' : L.page d₀.address p₀.index = some (p, rest) := by
    have h₀ := hC.page p₀.address p₀.index
    rw [hsound.page_of_held hp₀] at h₀
    obtain ⟨p₁, h₁⟩ := Option.isSome_iff_exists.1 h₀
    have h₂ := (Ledger.page_eq_some.1 h₁).1
    rw [← (hsound.page hp₀).1] at h₂
    rw [← hpa, h₁, h₂.symm.trans hp]
  have hkey : info.pubkey = d₀.address.pageKey p₀.index := by rw [(hsound.page hp₀).1, hpa]
  split_ifs at h with hne
  · have hF := clear_ok h
    rw [hkey] at hF
    obtain ⟨hs, haccount, hpage, hslot⟩ := hC.sound.clearPage hp' hd' hne rfl
    have hkept := hF.keeps_storage hs
    refine ⟨hkept.sound, fun b => (hF.account_eq b).trans ((haccount b).trans (hC.account b)),
      fun b j => (hkept.slot b j).trans ((hslot b j).trans (hC.slot b j)), fun b j => ?_,
      fun {b j p₁ e} hfresh hp₁ he => ?_⟩
    · rw [hF.page_eq, hpage]
      split_ifs with hb
      · rw [← hC.page b j, hb.1, hb.2, hp']
        rfl
      · exact hC.page b j
    · rw [hF.page_eq, hpage] at hp₁
      rw [hF.account_eq, haccount] at he
      split_ifs at hp₁ with hb
      · rw [hb.1, hd'] at he
        rw [← Option.some.inj hp₁, ← Option.some.inj he]
      · exact hC.fresh (hfresh.resolve_right fun hx => hb (Prod.mk.inj hx)) hp₁ he
  · obtain ⟨-, rfl⟩ := pure_eq_ok.1 h
    refine ⟨hC.sound, hC.account, hC.slot, hC.page, fun {b j p₁ e} hfresh hp₁ he => ?_⟩
    rcases hfresh with hfresh | hx
    · exact hC.fresh hfresh hp₁ he
    · obtain ⟨rfl, rfl⟩ := Prod.mk.inj hx
      rw [← Option.some.inj (hp'.symm.trans hp₁), ← Option.some.inj (hd'.symm.trans he)]
      exact not_not.1 hne

omit [Platform] [Runtime] in
theorem supplied_ok {operator : AccountMeta} {systemProgram : Option AccountMeta}
    {accounts : List AccountMeta} {info : AccountMeta}
    (h : (supplied operator systemProgram accounts).lookup k = some info) : info.pubkey = k := by
  rw [supplied] at h
  generalize accounts ++ operator :: systemProgram.toList = infos at h
  suffices hall : ∀ (infos : List AccountMeta) (m : HashMap Pubkey AccountMeta),
      (∀ {k info}, m.lookup k = some info → info.pubkey = k) →
      ∀ {k info}, (infos.foldl (fun m info => m.insert info.pubkey info) m).lookup k = some info →
        info.pubkey = k from
    hall infos ∅ (fun h => by simp at h) h
  intro infos
  induction infos with
  | nil => exact fun m hm => hm
  | cons x infos ih =>
    refine fun m hm => ih _ fun {k info} hk => ?_
    by_cases hkx : k = x.pubkey
    · rw [hkx, AList.lookup_insert, Option.some.injEq] at hk
      rw [← hk, hkx]
    · rw [AList.lookup_insert_ne hkx] at hk
      exact hm hk

/-- **`new` makes coherent, fresh handles** and changes no slot. -/
theorem new_ok {clock : Clock} {operator : AccountMeta} {systemProgram : Option AccountMeta}
    {accounts : List AccountMeta} {S : ProgramAccountStorage} (hL : L.Sound)
    (h : new clock operator systemProgram accounts L = .ok S L') :
    S.ledger = L' ∧ S.Coherent ∧ (∀ a, S.FreshAt a) ∧ ∀ a i, L'.slot a i = L.slot a i := by
  simp only [new, bind_eq_ok, get_eq_ok] at h
  obtain ⟨handles, _, hopen, _, L₁, hclear, _, _, ⟨rfl, rfl⟩, hpure⟩ := h
  obtain ⟨rfl, hfiled⟩ := openHandles_ok hopen
  obtain ⟨rfl, rfl⟩ := pure_eq_ok.1 hpure
  have hstart : Clearing L (fun x => x ∈ ([] : List ((_ : Address × U256) × Pubkey)).keys) L :=
    ⟨hL, fun _ => rfl, fun _ _ => rfl, fun _ _ => rfl, fun h => by simp at h⟩
  have hclearing : Clearing L (· ∈ handles.storageAccounts) L₁ := by
    refine foldl_invariant (I := fun done _ L' => Clearing L (· ∈ done.keys) L') ?_ hstart hclear
    rintro done ⟨⟨a, i⟩, k⟩ rest _ L₂ u L₃ hentries hC hstep
    have he : (⟨(a, i), k⟩ : (_ : Address × U256) × Pubkey) ∈ handles.storageAccounts.entries := by
      rw [hentries]
      exact List.mem_append_right _ List.mem_cons_self
    have hnext := clearStale_ok supplied_ok hC hfiled hL (AList.mem_lookup_iff.2 he) hstep
    refine ⟨hnext.sound, hnext.account, hnext.slot, hnext.page, fun {b j p e} hmem => hnext.fresh ?_⟩
    simpa [List.keys, eq_comm] using hmem
  refine ⟨rfl, ⟨hclearing.sound, fun {a k} hk => ?_, fun {a i k} hk => ?_⟩, fun a i p e hi => ?_,
    hclearing.slot⟩
  · obtain ⟨d, rest, hheld, rfl⟩ := hfiled.ethereum hk
    exact ⟨(hL.account hheld).1, _, (hclearing.account _).trans (hL.account_of_held hheld)⟩
  · obtain ⟨p, rest, hheld, rfl, rfl⟩ := hfiled.storage hk
    refine ⟨(hL.page hheld).1, Option.isSome_iff_exists.1 ?_⟩
    rw [hclearing.page, hL.page_of_held hheld]
    rfl
  · exact hclearing.fresh hi

/-! ## Reading -/

section

variable [Runtime.Lawful] {S : ProgramAccountStorage} {a : Address} {i v : U256}

omit [Runtime.Lawful] in
/-- An address has its key, whether it is loaded or not. -/
theorem Coherent.solanaAddress (hS : S.Coherent) : (S.solanaAddress a).1 = a.key := by
  rw [ProgramAccountStorage.solanaAddress]
  rcases h : (S.ethereumAccounts.lookup a).bind (S.ledger.handle? EthereumAccount) with _ | account
  · rfl
  · exact (hS.bind_handle h).1

/-- **An account that reads as empty** is not there. -/
theorem account_eq_none_of_empty {L : Ledger} (h : isAccountEmpty (L a.key)) :
    L.account a = none := by
  rw [Ledger.account, Option.filter_eq_none_iff]
  rintro ⟨d, rest⟩ he
  obtain ⟨howner, hcontent⟩ := Ledger.held_ethereum.1 he
  rw [isAccountEmpty, howner, hcontent] at h
  simp only [Runtime.Lawful.systemProgramId_ne.symm, Content.tag] at h
  exact absurd h (by decide)

omit [Platform] [Runtime] [Runtime.Lawful] in
/-- **The static slots** of an account. -/
theorem staticSlot_eq {account : Handle EthereumAccount} {n : ℕ} (h : staticSlot account n = some v) :
    v = wordAt (account.data.statics account.rest) n := by
  rw [staticSlot, EthereumAccount.isContract] at h
  by_cases hcode : account.data.codeSize = 0
  · rw [if_neg (by simpa using hcode)] at h
    rw [EthereumAccount.statics_of_codeSize hcode, wordAt_nil]
    exact (Option.some.inj h).symm
  · rw [if_pos (decide_eq_true hcode), EthereumAccount.staticStorage,
      EthereumAccount.extensionPart, List.drop_zero] at h
    obtain ⟨storage, hstorage, rfl⟩ := Option.map_eq_some_iff.1 h
    split_ifs at hstorage
    rw [EthereumAccount.statics, if_neg hcode, wordAt, Option.some.inj hstorage]

/-- **A contract reads what the ledger holds**, once the pages of its address are fresh. -/
theorem Coherent.storage_eq (hS : S.Coherent) (hfresh : S.FreshAt a)
    (h : S.storage a i = some v) : v = S.ledger.slot a i := by
  rw [ProgramAccountStorage.storage] at h
  split_ifs at h with hi
  · obtain ⟨account, haccount, h⟩ := Option.bind_eq_some_iff.1 h
    rw [ethereumAccount] at haccount
    rcases hk : S.ethereumAccounts.lookup a with _ | k
    · simp only [hk] at haccount
      split_ifs at haccount with hempty
      rw [Bool.and_eq_true] at hempty
      rw [Ledger.slot_of_account_eq_none (account_eq_none_of_empty hempty.2)]
      obtain rfl := Option.some.inj haccount
      exact (Option.some.inj h).symm
    · obtain ⟨d, rest, hd, hhandle⟩ := hS.handle hk
      simp only [hk, hhandle] at haccount
      obtain rfl := Option.some.inj haccount
      rw [Ledger.slot_eq hd, if_pos hi]
      exact staticSlot_eq h
  · obtain ⟨page, hpage, rfl⟩ := Option.map_eq_some_iff.1 h
    rw [ethereumStorage] at hpage
    rcases hk : S.storageAccounts.lookup (a, pageOf i) with _ | k
    · simp only [hk] at hpage
      split_ifs at hpage with hempty
      obtain rfl := Option.some.inj hpage
      rw [Bool.and_eq_true, decide_eq_true_iff, decide_eq_true_iff, hS.solanaAddress] at hempty
      have hp : S.ledger.page a (pageOf i) = none := by
        rw [Ledger.page, Address.pageKey, Ledger.held, hempty.2,
          if_neg Runtime.Lawful.systemProgramId_ne]
        rfl
      rcases hd : S.ledger.account a with _ | ⟨d, rest⟩
      · exact (Ledger.slot_of_account_eq_none hd).symm
      · rw [Ledger.slot_eq hd, if_neg hi, hp]
        rfl
    · obtain ⟨p, rest, hp, hhandle⟩ := hS.pageHandle hk
      simp only [hk, hhandle] at hpage
      obtain rfl := Option.some.inj hpage
      obtain ⟨-, -, d, r, hd, -⟩ := hS.sound.page (Ledger.page_eq_some.1 hp).1
      rw [(Ledger.page_eq_some.1 hp).2.1] at hd
      have hgeneration := hfresh (AList.lookup_isSome.1 (by rw [hk]; rfl)) hp hd
      rw [Ledger.slot_eq hd, if_neg hi, hp]
      exact (if_pos hgeneration).symm

end

end ProgramAccountStorage

end

end NeonEvm
