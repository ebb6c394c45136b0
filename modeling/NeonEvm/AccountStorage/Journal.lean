import NeonEvm.AccountStorage.Writes

/-!
# AccountStorage/Journal — what applying a journal makes of the slots

    slot' a i = 0                        the journal destroys a
              = the last value written   else, if the journal writes (a, i)
              = slot a i                 else

Creations and resizing leave the slots alone; the writes are gathered while the actions are applied,
and made at the end, when what is destroyed has been cleared.
-/

namespace NeonEvm

open Exec Packable Chunks EthereumStorage

variable [Platform] [Runtime]

namespace Ledger

theorem account_newAccount {L : Ledger} {a : Address} (bumpSeed : UInt8) (n : ℕ)
    (howner : (L a.key).owner = programId) (hnone : L.held EthereumAccount a.key = none) :
    (L.setContent a.key (.ethereum (.new a bumpSeed) (List.replicate n 0))).account a =
      some (.new a bumpSeed, List.replicate n 0) :=
  (account_setAccount (d := .new a bumpSeed) rfl howner fun e he => by
    rw [show L.held EthereumAccount (EthereumAccount.new a bumpSeed).address.key = none from hnone]
      at he
    cases he).trans (if_pos rfl)

/-- An account of ours stays as it is. -/
def Untouched (k : Pubkey) (L L' : Ledger) : Prop :=
  (L k).owner = programId → (L' k).owner = programId ∧ (L' k).content = (L k).content

omit [Platform] in
theorem Foreign.untouched {L L₁ : Ledger} {k key : Pubkey} {c : Content}
    (h : L.Foreign L₁) (hne : k ≠ key) : Untouched k L (L₁.setContent key c) := fun hk => by
  rw [setContent_of_ne hne]
  exact h.keeps hk

end Ledger

namespace ProgramAccountStorage

variable {S₀ S S' : ProgramAccountStorage} {σ : Storage} {stale : Address → Prop} {u : Unit}
  {a : Address} {i v : U256}

/-! ## Single slots -/

/-- **A slot in the contract's own account.** -/
theorem Reached.writeStatic (hR : S₀.Reached S σ stale) {d : EthereumAccount} {rest : Bytes}
    (hd : S.ledger.account a = some (d, rest)) (hcode : d.codeSize ≠ 0)
    (hi : i.toNat < STORAGE_ENTRIES_IN_CONTRACT_ACCOUNT)
    (hroom : INTERNAL_STORAGE_SIZE ≤ rest.length) :
    S₀.Reached
      { S with ledger :=
          S.ledger.setContent a.key (.ethereum d (overwrite rest (i.toNat * 32) v.bytes)) }
      (σ.write a i v) stale := by
  obtain ⟨hheld, hda⟩ := Ledger.account_eq_some.1 hd
  have hfits := (hR.coherent.sound.account hheld).2
  have hlen : (overwrite rest (i.toNat * 32) v.bytes).length = rest.length := by
    refine length_overwrite ?_
    rw [U256.length_bytes]
    rw [INTERNAL_STORAGE_SIZE] at hroom
    omega
  refine hR.setAccount hd hda le_rfl ⟨fun h => absurd h hcode, fun h => ?_⟩ (fun b j => ?_)
    fun b hb => ⟨hb, fun _ => rfl⟩
  · rw [hlen]
    exact hfits.room h
  · rw [Storage.write]
    by_cases hb : b = a
    · rw [if_pos hb, hb, ← hR.slot, Ledger.slot_eq hd]
      by_cases hj : j.toNat < STORAGE_ENTRIES_IN_CONTRACT_ACCOUNT
      · rw [if_pos hj, if_pos hj, EthereumAccount.statics, if_neg hcode, EthereumAccount.statics,
          if_neg hcode, wordAt_overwrite hi hj hroom]
        refine if_congr ?_ rfl rfl
        rw [and_iff_right rfl, BitVec.toNat_inj]
      · rw [if_neg hj, if_neg hj, if_neg (show ¬(a = a ∧ j = i) from fun h => hj (h.2 ▸ hi))]
    · rw [if_neg hb, if_neg fun h => hb h.1]

/-- **A slot in a page** of the contract's generation. -/
theorem Reached.writePage (hR : S₀.Reached S σ stale) {d : EthereumAccount} {r : Bytes}
    {p : EthereumStorage} {rest : Bytes} (hd : S.ledger.account a = some (d, r))
    (hi : ¬i.toNat < STORAGE_ENTRIES_IN_CONTRACT_ACCOUNT) (hpa : p.address = a)
    (hpi : p.index = pageOf i) (hgeneration : p.generation = d.generation) (hrow : IsRow rest)
    (howner : (S.ledger (a.pageKey (pageOf i))).owner = programId)
    (haccount : S.ledger.held EthereumAccount (a.pageKey (pageOf i)) = none)
    (hold : ∀ e ∈ S.ledger.held EthereumStorage (a.pageKey (pageOf i)),
      e.1.address = a ∧ e.1.index = pageOf i)
    (hget : ∀ j, ¬j.toNat < STORAGE_ENTRIES_IN_CONTRACT_ACCOUNT → pageOf j = pageOf i →
      EthereumStorage.get rest (subindexOf j) =
        if subindexOf j = subindexOf i then v else S.ledger.slot a j) :
    S₀.Reached
      { S with ledger := S.ledger.setContent (a.pageKey (pageOf i)) (.storage p rest) }
      (σ.write a i v) stale ∧
    (S.ledger.setContent (a.pageKey (pageOf i)) (.storage p rest)).page a (pageOf i) =
      some (p, rest) := by
  obtain ⟨hC, hslot, hfresh, hpage⟩ := hR.coherent.setPage hd hpa hpi hgeneration hrow howner
    haccount hold rfl
  refine ⟨⟨hC, hR.supplied, fun b j => ?_, fun hb h₀ => hfresh _ (hR.fresh hb h₀)⟩, hpage⟩
  rw [hslot, Storage.write]
  by_cases hb : b = a ∧ ¬j.toNat < STORAGE_ENTRIES_IN_CONTRACT_ACCOUNT ∧ pageOf j = pageOf i
  · obtain ⟨rfl, hj, hpage⟩ := hb
    rw [if_pos ⟨rfl, hj, hpage⟩, hget j hj hpage, hR.slot]
    refine if_congr ⟨fun h => ⟨rfl, slot_ext hpage h⟩, fun h => by rw [h.2]⟩ rfl rfl
  · rw [if_neg hb, hR.slot, if_neg]
    rintro ⟨rfl, rfl⟩
    exact hb ⟨rfl, hi, rfl⟩

/-- **A page that is loaded** is written in place. -/
theorem setStorage_ok (hR : S₀.Reached S σ stale) {d : EthereumAccount} {r : Bytes}
    {p : EthereumStorage} {rest : Bytes} {transfers transfers' : Transfers}
    (hd : S.ledger.account a = some (d, r))
    (hi : ¬i.toNat < STORAGE_ENTRIES_IN_CONTRACT_ACCOUNT)
    (hp : S.ledger.page a (pageOf i) = some (p, rest)) (hgeneration : p.generation = d.generation)
    (h : setStorage ⟨a.pageKey (pageOf i), p, rest⟩ transfers (subindexOf i) v S =
      .ok transfers' S') :
    S₀.Reached S' (σ.write a i v) stale := by
  obtain ⟨_, S₁, hsave, hrest⟩ := bind_eq_ok.1 h
  obtain rfl := save_ok hsave
  obtain ⟨hheld, hpa, hpi⟩ := Ledger.page_eq_some.1 hp
  have hrow := (hR.coherent.sound.page hheld).2.1
  have hrow' : IsRow (EthereumStorage.setRest rest (subindexOf i) v) := hrow.setRest
  obtain ⟨hwritten, -⟩ := hR.writePage hd hi hpa hpi hgeneration hrow'
    (Ledger.held_storage.1 hheld).1 (Ledger.held_ethereum_of_storage hheld)
    (fun e he => Option.some.inj (hheld.symm.trans he) ▸ ⟨hpa, hpi⟩) (fun j hj hpage => by
      rw [get_setRest hrow, Ledger.slot_eq hd, if_neg hj, hpage, hp]
      exact if_congr Iff.rfl rfl (if_pos hgeneration).symm)
  split_ifs at hrest
  · obtain ⟨-, rfl⟩ := pure_eq_ok.1 hrest
    exact hwritten
  · simp only [bind_eq_ok, get_eq_ok, pure_eq_ok] at hrest
    obtain ⟨_, S₂, hminimum, _, _, ⟨rfl, rfl⟩, -, rfl⟩ := hrest
    exact hwritten.steady (returns_onLedger_foreign (returns_minimumBalance _) _ _ _ hminimum)

/-- **A page that is not there** is made with one record. -/
theorem createStorage_ok [Runtime.Lawful] {operator : Pubkey} {contract : Handle EthereumAccount}
    {info : AccountMeta} {index : U256} {subindex : UInt8} {L L' : Ledger}
    (h : createStorage operator contract info index subindex v L = .ok u L') :
    ∃ L₁, L.Foreign L₁ ∧ (L₁ info.pubkey).owner = programId ∧
      (L₁ info.pubkey).content.tag = some TAG_EMPTY ∧
      L' = L₁.setContent info.pubkey (.storage
        ⟨contract.data.address, contract.data.generation, index⟩ (record subindex v)) := by
  obtain ⟨_, L₁, hcreate, h⟩ := bind_eq_ok.1 h
  obtain ⟨_, L₂, hinit, h⟩ := bind_eq_ok.1 h
  obtain ⟨howner, htag, rfl⟩ := initAccount_ok hinit
  obtain ⟨⟨e, rest⟩, L₃, hopen, h⟩ := bind_eq_ok.1 h
  obtain ⟨rfl, -⟩ := openAccount_ok hopen
  obtain ⟨_, L₄, hassert, h⟩ := bind_eq_ok.1 h
  obtain ⟨-, rfl⟩ := assertThat_eq_ok.1 hassert
  obtain rfl := modify_eq_ok.1 h
  exact ⟨L₁, returns_createAccountWithSeed _ _ _ _ _ _ _ _ _ _ hcreate, howner, htag,
    Ledger.setContent_setContent⟩

/-- The accounts that were supplied are filed under their keys. -/
def Named (S : ProgramAccountStorage) : Prop :=
  ∀ {k info}, S.solanaAccounts.lookup k = some info → info.pubkey = k

/-- **Filing a page** that is in the ledger and of its contract's generation. -/
theorem Reached.filePage (hR : S₀.Reached S σ stale) {p : EthereumStorage} {rest : Bytes} {d r}
    (hp : S.ledger.page a i = some (p, rest)) (hd : S.ledger.account a = some (d, r))
    (hgeneration : p.generation = d.generation) :
    S₀.Reached { S with storageAccounts := S.storageAccounts.insert (a, i) (a.pageKey i) } σ
      stale := by
  refine ⟨⟨hR.coherent.sound, hR.coherent.ethereum, fun {b j k} hk => ?_⟩, hR.supplied, hR.slot,
    fun {b} hb h₀ j q e hj hq he => ?_⟩
  · by_cases hbj : (b, j) = (a, i)
    · obtain ⟨rfl, rfl⟩ := Prod.mk.inj hbj
      rw [AList.lookup_insert, Option.some.injEq] at hk
      exact ⟨hk.symm, _, hp⟩
    · rw [AList.lookup_insert_ne hbj] at hk
      exact hR.coherent.storage hk
  · by_cases hbj : (b, j) = (a, i)
    · obtain ⟨rfl, rfl⟩ := Prod.mk.inj hbj
      rw [← Option.some.inj (hp.symm.trans hq), ← Option.some.inj (hd.symm.trans he)]
      exact hgeneration
    · rw [AList.mem_insert] at hj
      exact hR.fresh hb h₀ (hj.resolve_left hbj) hq he

/-- **Zero in a page that is not there** is what it holds already. -/
theorem Reached.writeZero (hR : S₀.Reached S σ stale) {d : EthereumAccount} {r : Bytes}
    (hd : S.ledger.account a = some (d, r)) (hi : ¬i.toNat < STORAGE_ENTRIES_IN_CONTRACT_ACCOUNT)
    (hpage : S.ledger.page a (pageOf i) = none) (hv : v = 0) :
    S₀.Reached S (σ.write a i v) stale := by
  refine ⟨hR.coherent, hR.supplied, fun b j => ?_, hR.fresh⟩
  rw [Storage.write]
  split_ifs with hb
  · rw [hb.1, hb.2, Ledger.slot_eq hd, if_neg hi, hpage, hv]
    rfl
  · exact hR.slot b j

/-- **A page with its first record** has been made and filed. -/
theorem Reached.makePage (hR : S₀.Reached S σ stale) {d : EthereumAccount} {r : Bytes} {L : Ledger}
    (hd : S.ledger.account a = some (d, r)) (hi : ¬i.toNat < STORAGE_ENTRIES_IN_CONTRACT_ACCOUNT)
    (hda : d.address = a) (hpage : S.ledger.page a (pageOf i) = none) (hL : S.ledger.Foreign L)
    (howner : (L (a.pageKey (pageOf i))).owner = programId)
    (htag : (L (a.pageKey (pageOf i))).content.tag = some TAG_EMPTY) :
    S₀.Reached
      { S with
        storageAccounts := S.storageAccounts.insert (a, pageOf i) (a.pageKey (pageOf i))
        ledger := L.setContent (a.pageKey (pageOf i))
          (.storage ⟨d.address, d.generation, pageOf i⟩ (record (subindexOf i) v)) }
      (σ.write a i v) stale := by
  have hethereum := held_eq_none_of_tag htag Content.split_ethereum_of_tag
  have hstorage := held_eq_none_of_tag htag Content.split_storage_of_tag
  have hd' := (hL.account_eq a).trans hd
  have hget : ∀ j, ¬j.toNat < STORAGE_ENTRIES_IN_CONTRACT_ACCOUNT → pageOf j = pageOf i →
      EthereumStorage.get (record (subindexOf i) v) (subindexOf j) =
        if subindexOf j = subindexOf i then v else L.slot a j := by
    intro j hj hpj
    rw [get_record, Ledger.slot_eq hd', if_neg hj, hpj, hL.page_eq, hpage]
    rfl
  obtain ⟨hwritten, hp⟩ := (hR.steady (steady_of_keeps hL.keeps_storage)).writePage
    (p := ⟨d.address, d.generation, pageOf i⟩) hd' hi hda rfl rfl isRow_record howner hethereum
    (fun e he => by rw [hstorage] at he; cases he) hget
  exact hwritten.filePage hp ((Ledger.account_setPage hethereum).trans hd') rfl

/-- **A slot in a page.** -/
theorem applyPaged_ok [Runtime.Lawful] (hR : S₀.Reached S σ stale) (hnamed : S₀.Named)
    (ha : ¬stale a) (hfresh : S₀.FreshAt a) {operator : Pubkey} {contract : Handle EthereumAccount}
    {transfers transfers' : Transfers} (hkey : contract.key = a.key)
    (hd : S.ledger.account a = some (contract.data, contract.rest))
    (hi : ¬i.toNat < STORAGE_ENTRIES_IN_CONTRACT_ACCOUNT)
    (h : applyPaged operator contract transfers i v S = .ok transfers' S') :
    S₀.Reached S' (σ.write a i v) stale := by
  have hda := (Ledger.account_eq_some.1 hd).2
  obtain ⟨_, _, hget, h⟩ := bind_eq_ok.1 h
  obtain ⟨rfl, rfl⟩ := get_eq_ok.1 hget
  rw [show contract.data.address = a from hda] at h
  rcases hk : S.storageAccounts.lookup (a, pageOf i) with _ | key
  · have hpk : EthereumStorage.pubkey contract.key (pageOf i) = a.pageKey (pageOf i) := by
      rw [hkey, Address.pageKey]
    simp only [hk, hpk] at h
    rcases hs : S.solanaAccounts.lookup (EthereumStorage.pubkey contract.key (pageOf i)) with
      _ | info
    · simp only [hs] at h
      exact (fail_eq_ok.1 h).elim
    · simp only [hs] at h
      obtain ⟨_, _, hfail, h⟩ := bind_eq_ok.1 h
      obtain ⟨howner, rfl⟩ := failIf_eq_ok.1 hfail
      have howner : (S.ledger (a.pageKey (pageOf i))).owner ≠ programId := by
        rw [decide_eq_false_iff_not, not_not] at howner
        rw [howner]
        exact Runtime.Lawful.systemProgramId_ne
      have hpage : S.ledger.page a (pageOf i) = none := by
        rw [Ledger.page, Ledger.held, if_neg howner]
        rfl
      split_ifs at h with hv
      · obtain ⟨-, rfl⟩ := pure_eq_ok.1 h
        exact hR.writeZero hd hi hpage hv
      · obtain ⟨_, S₁, hcreate, h⟩ := bind_eq_ok.1 h
        obtain ⟨_, S₂, hmodify, h⟩ := bind_eq_ok.1 h
        obtain ⟨-, rfl⟩ := pure_eq_ok.1 h
        obtain rfl := modify_eq_ok.1 hmodify
        obtain ⟨_, hstorage, rfl⟩ := zoom_eq_ok.1 hcreate
        obtain ⟨L₁, hforeign, howner₁, htag, rfl⟩ := createStorage_ok hstorage
        have hinfo : info.pubkey = a.pageKey (pageOf i) := hnamed (hR.supplied ▸ hpk ▸ hs)
        rw [hinfo] at howner₁ htag ⊢
        exact hR.makePage hd hi hda hpage hforeign howner₁ htag
  · obtain ⟨p, rest, hp, hhandle⟩ := hR.coherent.pageHandle hk
    simp only [hk, bind_eq_ok, ofOption_eq_ok] at h
    obtain ⟨page, _, ⟨hpage, rfl⟩, hset⟩ := h
    obtain rfl := Option.some.inj (hhandle.symm.trans hpage)
    have hgeneration := hR.fresh ha hfresh (AList.lookup_isSome.1 (by rw [hk]; rfl)) hp hd
    exact setStorage_ok hR hd hi hp hgeneration hset

/-- **A slot.** -/
theorem applySlot_ok [Runtime.Lawful] (hR : S₀.Reached S σ stale) (hnamed : S₀.Named)
    (ha : ¬stale a) (hfresh : S₀.FreshAt a) {operator : Pubkey} {transfers transfers' : Transfers}
    (h : applySlot operator a transfers (i, v) S = .ok transfers' S') :
    S₀.Reached S' (σ.write a i v) stale := by
  obtain ⟨_, _, hget, h⟩ := bind_eq_ok.1 h
  obtain ⟨rfl, rfl⟩ := get_eq_ok.1 hget
  obtain ⟨contract, _, hcontract, h⟩ := bind_eq_ok.1 h
  obtain ⟨hhandle, rfl⟩ := ofOption_eq_ok.1 hcontract
  obtain ⟨hkey, hd⟩ := hR.coherent.bind_handle hhandle
  obtain ⟨_, _, hassert, h⟩ := bind_eq_ok.1 h
  obtain ⟨hcode, rfl⟩ := assertThat_eq_ok.1 hassert
  split_ifs at h with hi
  · obtain ⟨_, _, hlength, h⟩ := bind_eq_ok.1 h
    obtain ⟨hroom, rfl⟩ := assertThat_eq_ok.1 hlength
    obtain ⟨_, _, hsave, h⟩ := bind_eq_ok.1 h
    obtain rfl := save_ok hsave
    obtain ⟨-, rfl⟩ := pure_eq_ok.1 h
    rw [hkey]
    exact hR.writeStatic hd (of_decide_eq_true hcode) hi (of_decide_eq_true hroom)
  · exact applyPaged_ok hR hnamed ha hfresh hkey hd hi h

/-! ## Lists of slots -/

end ProgramAccountStorage

/-- Slots with the values they are given. -/
abbrev SlotWrites : Type := List (U256 × U256)

namespace Storage

/-- The writes made, one after the other. -/
def writeAll (σ : Storage) (a : Address) (ws : SlotWrites) : Storage :=
  ws.foldl (fun σ w => σ.write a w.1 w.2) σ

omit [Platform] [Runtime] in
theorem writeAll_of_ne {σ : Storage} {a b : Address} (h : b ≠ a) (ws : SlotWrites) :
    σ.writeAll a ws b = σ b := by
  induction ws generalizing σ with
  | nil => rfl
  | cons w ws ih =>
    refine (ih (σ := σ.write a w.1 w.2)).trans (funext fun j => ?_)
    rw [write, if_neg fun h' => h h'.1]

omit [Platform] [Runtime] in
/-- **Only the address counts** for its slots. -/
theorem writeAll_congr {σ τ : Storage} {a : Address} (h : σ a = τ a) (ws : SlotWrites) :
    σ.writeAll a ws a = τ.writeAll a ws a := by
  induction ws generalizing σ τ with
  | nil => exact h
  | cons w ws ih =>
    refine ih (σ := σ.write a w.1 w.2) (τ := τ.write a w.1 w.2) (funext fun j => ?_)
    rw [write, write, h]

end Storage

namespace ProgramAccountStorage

variable {S₀ S S' : ProgramAccountStorage} {σ : Storage} {stale : Address → Prop} {u : Unit}
  {a : Address} {i v : U256}

theorem Reached.congr {σ' : Storage} (hR : S₀.Reached S σ stale) (h : ∀ a, σ a = σ' a) :
    S₀.Reached S σ' stale :=
  ⟨hR.coherent, hR.supplied, fun a i => (hR.slot a i).trans (congrFun (h a) i), hR.fresh⟩

/-- **The slots of one contract.** -/
theorem applySlots_ok [Runtime.Lawful] (hR : S₀.Reached S σ stale) (hnamed : S₀.Named)
    (ha : ¬stale a) (hfresh : S₀.FreshAt a) {operator : Pubkey} {ws : SlotWrites}
    {transfers transfers' : Transfers}
    (h : foldl (applySlot operator a) transfers ws S = .ok transfers' S') :
    S₀.Reached S' (σ.writeAll a ws) stale := by
  refine foldl_invariant (I := fun done _ S => S₀.Reached S (σ.writeAll a done) stale) ?_ hR h
  intro done w rest t S t' S' _ hR hstep
  rw [Storage.writeAll, List.foldl_concat]
  exact applySlot_ok hR hnamed ha hfresh hstep

/-- The writes that are pending for an address. -/
def Slots.of (storage : Slots) (a : Address) : SlotWrites := (storage.lookup a).getD []

/-- **All pending slots**, contract after contract. -/
theorem applyStorage_ok [Runtime.Lawful] (hR : S₀.Reached S σ stale) (hnamed : S₀.Named)
    {storage : Slots} (hstale : ∀ {a}, a ∈ storage → ¬stale a) (hfresh : ∀ a, S₀.FreshAt a)
    {operator : Pubkey} (h : applyStorage operator storage S = .ok u S') :
    S₀.Reached S' (fun a => σ.writeAll a (Slots.of storage a) a) stale := by
  obtain ⟨transfers, S₁, hslots, htransfers⟩ := bind_eq_ok.1 h
  have hkeys : storage.entries.keys.Nodup := storage.nodupKeys
  have hwritten : S₀.Reached S₁ (fun b =>
      if b ∈ storage.entries.keys then σ.writeAll b (Slots.of storage b) b else σ b) stale := by
    refine foldl_invariant (I := fun done _ S => S₀.Reached S (fun b =>
      if b ∈ done.keys then σ.writeAll b (Slots.of storage b) b else σ b) stale) ?_ hR hslots
    rintro done ⟨a, ws⟩ rest _ S₂ _ S₃ hentries hR₂ hstep
    have hws : (⟨a, ws⟩ : (_ : Address) × SlotWrites) ∈ storage.entries := by
      rw [hentries]
      exact List.mem_append_right _ List.mem_cons_self
    have hnot : a ∉ done.keys := by
      rw [hentries, List.keys, List.map_append, List.map_cons, List.nodup_append] at hkeys
      exact fun ha => hkeys.2.2 a ha a List.mem_cons_self rfl
    have hof : Slots.of storage a = ws := by rw [Slots.of, AList.mem_lookup_iff.2 hws, Option.getD_some]
    have hmem : a ∈ storage := AList.lookup_isSome.1 (by rw [AList.mem_lookup_iff.2 hws]; rfl)
    refine (applySlots_ok hR₂ hnamed (hstale hmem) (hfresh a) hstep).congr fun b => ?_
    have hsnoc : b ∈ (done ++ [⟨a, ws⟩] : List ((_ : Address) × SlotWrites)).keys ↔
        b ∈ done.keys ∨ b = a := by
      rw [List.keys, List.map_append, List.mem_append, List.map_singleton, List.mem_singleton]
    by_cases hb : b = a
    · rw [if_pos (hsnoc.2 (.inr hb)), hb, hof]
      exact (Storage.writeAll_congr (if_neg hnot).symm ws).symm
    · rw [Storage.writeAll_of_ne hb]
      exact if_congr (by rw [hsnoc, or_iff_left hb]) rfl rfl
  refine foldl_invariant
    (I := fun _ _ S => S₀.Reached S (fun a => σ.writeAll a (Slots.of storage a) a) stale) ?_
    (hwritten.congr fun b => ?_) htransfers
  · intro done e rest _ S₂ _ S₃ _ hR₂ hstep
    exact hR₂.steady (returns_onLedger_foreign (returns_systemTransfer _ _ _) _ _ _ hstep)
  · split_ifs with hb
    · rfl
    · have hnone : storage.lookup b = none := AList.lookup_eq_none.2 hb
      rw [Slots.of, hnone]
      rfl

end ProgramAccountStorage

/-! ## The actions -/

/-- The value that a journal's action gives to a slot of an address. -/
def Action.writtenTo (a : Address) : Action → Option (U256 × U256)
  | evmSetStorage b i v => if b = a then some (i, v) else none
  | _ => none

/-- The slots of an address that a journal writes, in its order. -/
def writesTo (a : Address) (actions : List Action) : SlotWrites :=
  actions.filterMap (Action.writtenTo a)

/-- The addresses that a journal destroys. -/
def destroyedBy (actions : List Action) : List Address := actions.filterMap Action.destroyed

/-- A journal whose instructions are of other programs. -/
def Action.IsForeign : Action → Prop
  | externalInstruction id _ _ _ _ => id ≠ programId
  | _ => True

/-- No slot is written of an address that is destroyed. -/
def Action.Spares (destroyed : List Address) : Action → Prop
  | evmSetStorage a _ _ => a ∉ destroyed
  | evmSelfDestruct a => a ∈ destroyed
  | _ => True

namespace ProgramAccountStorage

variable {S₀ S S' : ProgramAccountStorage} {σ : Storage} {u : Unit} {a : Address}

/-- The slots of the destroyed addresses cleared. -/
def clearAll (σ : Storage) (destroyed : List Address) : Storage := fun a =>
  if a ∈ destroyed then 0 else σ a

/-- What applying the actions has done after some of them. -/
structure Applying (S₀ : ProgramAccountStorage) (σ : Storage) (D : List Address)
    (done : List Action) (storage : Slots) (S : ProgramAccountStorage) : Prop where
  reached : S₀.Reached S (clearAll σ (destroyedBy done)) (· ∈ destroyedBy done)
  pending : ∀ a, Slots.of storage a = writesTo a done
  spared : ∀ {a}, a ∈ storage → a ∉ D

omit [Platform] [Runtime] in
theorem writesTo_concat (a : Address) (done : List Action) (x : Action) :
    writesTo a (done ++ [x]) = writesTo a done ++ (x.writtenTo a).toList := by
  rw [writesTo, writesTo, List.filterMap_append]
  rcases h : x.writtenTo a with _ | w
  · rw [List.filterMap_cons_none h]
    rfl
  · rw [List.filterMap_cons_some h]
    rfl

omit [Platform] [Runtime] in
theorem destroyedBy_concat (done : List Action) (x : Action) :
    destroyedBy (done ++ [x]) = destroyedBy done ++ x.destroyed.toList := by
  rw [destroyedBy, destroyedBy, List.filterMap_append]
  rcases h : x.destroyed with _ | a
  · rw [List.filterMap_cons_none h]
    rfl
  · rw [List.filterMap_cons_some h]
    rfl

/-- **A steady action** writes nothing and destroys nothing. -/
theorem Applying.steady {D : List Address} {done : List Action} {storage storage' : Slots}
    {action : Action} {x : Apply Unit} (hA : Applying S₀ σ D done storage S) (hx : Returns Steady x)
    (hd : action.destroyed = none) (hw : ∀ a, action.writtenTo a = none)
    (h : (do x; pure storage : Apply Slots) S = .ok storage' S') :
    Applying S₀ σ D (done ++ [action]) storage' S' := by
  obtain ⟨_, S₁, hx₁, hpure⟩ := bind_eq_ok.1 h
  obtain ⟨rfl, rfl⟩ := pure_eq_ok.1 hpure
  refine ⟨?_, fun a => ?_, hA.spared⟩
  · rw [destroyedBy_concat, hd, Option.toList_none, List.append_nil]
    exact hA.reached.steady (hx _ _ _ hx₁)
  · rw [writesTo_concat, hw, Option.toList_none, List.append_nil, hA.pending]

/-- **One action.** -/
theorem applyAction_ok [Runtime.Lawful] {D : List Address} {done : List Action}
    {storage storage' : Slots} {action : Action} (hA : Applying S₀ σ D done storage S)
    (hforeign : action.IsForeign) (hspares : action.Spares D)
    (h : applyAction storage action S = .ok storage' S') :
    Applying S₀ σ D (done ++ [action]) storage' S' := by
  rcases action with ⟨id, accounts, data, seeds, fee⟩ | ⟨source, target, value⟩ | ⟨source, value⟩ |
    ⟨a, i, v⟩ | a | ⟨a, code⟩ | a
  · exact hA.steady (returns_invokeExternal (show id ≠ programId from hforeign)) rfl (fun _ => rfl) h
  · exact hA.steady (returns_transferNeonTokens _ _ _) rfl (fun _ => rfl) h
  · exact hA.steady (returns_withdraw _ _) rfl (fun _ => rfl) h
  · obtain ⟨rfl, rfl⟩ := pure_eq_ok.1 h
    refine ⟨?_, fun b => ?_, fun {b} hb => ?_⟩
    · rw [destroyedBy_concat]
      exact (List.append_nil (destroyedBy done)).symm ▸ hA.reached
    · rw [writesTo_concat, ← hA.pending, Slots.of, Slots.of, Action.writtenTo]
      by_cases hb : b = a
      · rw [hb, AList.lookup_insert, if_pos rfl]
        rfl
      · rw [AList.lookup_insert_ne hb, if_neg (Ne.symm hb), Option.toList_none, List.append_nil]
    · rw [AList.mem_insert] at hb
      rcases hb with rfl | hb
      · exact hspares
      · exact hA.spared hb
  · exact hA.steady (returns_incrementNonce _) rfl (fun _ => rfl) h
  · exact hA.steady (returns_deployContract _ _) rfl (fun _ => rfl) h
  · obtain ⟨_, S₁, hdelete, hpure⟩ := bind_eq_ok.1 h
    obtain ⟨rfl, rfl⟩ := pure_eq_ok.1 hpure
    have hdone : destroyedBy (done ++ [.evmSelfDestruct a]) = destroyedBy done ++ [a] :=
      destroyedBy_concat done _
    have hmem : ∀ b, b ∈ destroyedBy (done ++ [.evmSelfDestruct a]) ↔ b ∈ destroyedBy done ∨ b = a := by
      intro b
      rw [hdone, List.mem_append, List.mem_singleton]
    have hdeleted := deleteAccount_ok hA.reached hdelete
    refine ⟨⟨hdeleted.coherent, hdeleted.supplied, fun b i => ?_, fun {b} hb =>
      hdeleted.fresh fun h => hb ((hmem b).2 h)⟩, fun b => ?_, fun {b} hb => ?_⟩
    · rw [hdeleted.slot, Storage.clear, clearAll, clearAll]
      by_cases hb : b = a
      · rw [if_pos hb, if_pos ((hmem b).2 (.inr hb))]
        rfl
      · rw [if_neg hb]
        exact congrFun (if_congr (by rw [hmem, or_iff_left hb]) rfl rfl) i
    · rw [writesTo_concat, ← hA.pending, Slots.of, Slots.of]
      refine Eq.trans ?_ (List.append_nil _).symm
      by_cases hb : b = a
      · have hnone : storage.lookup a = none :=
          AList.lookup_eq_none.2 fun ha => hA.spared ha hspares
        rw [hb, AList.lookup_erase, hnone]
      · rw [AList.lookup_erase_ne hb]
    · exact hA.spared (AList.mem_erase.1 hb).2

/-! ## Creations and sizes -/

/-- **An account that is not there** is made, without storage. -/
theorem createAccountIfNotExists_ok {stale : Address → Prop} (hR : S₀.Reached S σ stale)
    (hnamed : S₀.Named) (h : createAccountIfNotExists a S = .ok u S') : S₀.Reached S' σ stale := by
  obtain ⟨_, _, hget, h⟩ := bind_eq_ok.1 h
  obtain ⟨rfl, rfl⟩ := get_eq_ok.1 hget
  split_ifs at h with ha
  · obtain ⟨-, rfl⟩ := pure_eq_ok.1 h
    exact hR
  · rcases hs : S.solanaAccounts.lookup (a.findSolanaAddress programId).1 with _ | info
    · simp only [hs] at h
      exact (fail_eq_ok.1 h).elim
    · simp only [hs] at h
      obtain ⟨_, S₁, hinit, hmodify⟩ := bind_eq_ok.1 h
      obtain ⟨L, hL, rfl⟩ := zoom_eq_ok.1 hinit
      obtain rfl := modify_eq_ok.1 hmodify
      have hinfo : info.pubkey = a.key := hnamed (hR.supplied ▸ hs)
      have hR₁ := hR.steady (steady_of_keeps (returns_initAccount hinfo _ _ _ hL))
      obtain ⟨howner, htag, rfl⟩ := initAccount_ok hL
      rw [hinfo] at howner htag hR₁ ⊢
      have haccount := Ledger.account_newAccount (a.findSolanaAddress programId).2
        ((S.ledger a.key).content.len - SIZE EthereumAccount) howner
        (held_eq_none_of_tag htag Content.split_ethereum_of_tag)
      refine ⟨⟨hR₁.coherent.sound, fun {b k} hk => ?_, hR₁.coherent.storage⟩, hR₁.supplied, hR₁.slot,
        hR₁.fresh⟩
      by_cases hb : b = a
      · rw [hb, AList.lookup_insert, Option.some.injEq] at hk
        rw [hb]
        exact ⟨hk.symm, _, haccount⟩
      · rw [AList.lookup_insert_ne hb] at hk
        exact hR₁.coherent.ethereum hk

theorem resizeAccount_ok [Runtime.Lawful] {operator key : Pubkey} {source target : ℕ} {L L' : Ledger}
    (h : resizeAccount operator key source target L = .ok u L') :
    ∃ L₁, L.Foreign L₁ ∧ (L key).owner = programId ∧
      L' = L₁.setContent key
        ((L₁ key).content.realloc (min target (source + MAX_PERMITTED_DATA_INCREASE))) := by
  simp only [resizeAccount, accountAt, bind_eq_ok, gets_eq_ok, assertThat_eq_ok, modify_eq_ok] at h
  obtain ⟨_, _, ⟨rfl, rfl⟩, _, _, ⟨howner, rfl⟩, _, L₁, hminimum, _, _, ⟨rfl, rfl⟩, _, L₂, htop,
    rfl⟩ := h
  exact ⟨L₂, Trans.trans (returns_minimumBalance _ _ _ _ hminimum) (returns_topUp _ _ _ _ _ _ htop),
    of_decide_eq_true howner, rfl⟩

/-- **One operation** on the accounts. -/
theorem processOperation_ok [Runtime.Lawful] (hapart : AddressesApart) {operator : Pubkey}
    {readiness readiness' : AccountsReadiness} {operation : Address × AccountOperation}
    (hsize : ∀ {source target}, operation.2 = .resize source target →
      (S.ledger operation.1.key).content.len = source ∧ source < target)
    (h : processOperation operator readiness operation S = .ok readiness' S') :
    Steady S S' ∧ ∀ b : Address, b ≠ operation.1 → Ledger.Untouched b.key S.ledger S'.ledger := by
  obtain ⟨a, operation⟩ := operation
  obtain ⟨_, _, hget, h⟩ := bind_eq_ok.1 h
  obtain ⟨rfl, rfl⟩ := get_eq_ok.1 hget
  split_ifs at h
  · rcases operation with space | ⟨source, target⟩
    · obtain ⟨_, S₁, hcreate, hpure⟩ := bind_eq_ok.1 h
      obtain ⟨-, rfl⟩ := pure_eq_ok.1 hpure
      obtain ⟨L, hL, rfl⟩ := zoom_eq_ok.1 hcreate
      have hforeign : S.ledger.Foreign L := by
        obtain ⟨_, _, hfail, hcreate⟩ := bind_eq_ok.1 hL
        obtain ⟨-, rfl⟩ := failIf_eq_ok.1 hfail
        exact returns_createPdaAccount _ _ _ _ _ _ _ _ hcreate
      exact ⟨steady_of_keeps hforeign.keeps_storage, fun b _ => hforeign.keeps⟩
    · obtain ⟨_, S₁, hresize, hpure⟩ := bind_eq_ok.1 h
      obtain ⟨-, rfl⟩ := pure_eq_ok.1 hpure
      obtain ⟨L, hL, rfl⟩ := zoom_eq_ok.1 hresize
      obtain ⟨L₁, hforeign, howner, rfl⟩ := resizeAccount_ok hL
      obtain ⟨hlen, hlt⟩ := hsize rfl
      have howner : (S.ledger a.key).owner = programId := howner
      have hspace : (L₁ a.key).content.len ≤ min target (source + MAX_PERMITTED_DATA_INCREASE) := by
        rw [(hforeign.keeps howner).2, hlen]
        exact le_min hlt.le (Nat.le_add_right _ _)
      refine ⟨Trans.trans (steady_of_keeps hforeign.keeps_storage)
        (steady_of_keeps (S := { S with ledger := L₁ }) (keeps_realloc hapart hspace)),
        fun b hb => hforeign.untouched fun hk => hb (hapart.injective hk)⟩
  · exact (fail_eq_ok.1 h).elim

/-- The operations that one address needs. -/
theorem calcAccountsOperations_ok (hS : S.Coherent) {actions : List Action}
    {operations : List (Address × AccountOperation)}
    (h : S.calcAccountsOperations actions = some operations) :
    (operations.map Prod.fst).Nodup ∧ ∀ {b source target}, (b, .resize source target) ∈ operations →
      (S.ledger b.key).owner = programId ∧ (S.ledger b.key).content.len = source ∧
        source < target := by
  rw [calcAccountsOperations] at h
  obtain ⟨lists, hlists, hflatten⟩ := Option.bind_eq_some_iff.1 h
  obtain rfl := Option.some.inj hflatten
  have hkeys : (spacesNeeded actions).entries.keys.Nodup := (spacesNeeded actions).nodupKeys
  generalize (spacesNeeded actions).entries = entries at hlists hkeys
  suffices hall : ((lists.flatten).map Prod.fst).Sublist entries.keys ∧
      ∀ {b source target}, (b, .resize source target) ∈ lists.flatten →
        S.solanaAccountSpace b = some (some source) ∧ source < target by
    refine ⟨hall.1.nodup hkeys, fun {b source target} hb => ?_⟩
    obtain ⟨hspace, hlt⟩ := hall.2 hb
    rw [solanaAccountSpace, hS.solanaAddress] at hspace
    split_ifs at hspace with hsupplied hsystem howner
    · exact absurd (Option.some.inj hspace).symm (Option.some_ne_none _)
    · exact ⟨howner, Option.some.inj (Option.some.inj hspace), hlt⟩
  clear hkeys h hflatten
  induction entries generalizing lists with
  | nil =>
    obtain rfl := Option.some.inj hlists
    exact ⟨List.Sublist.refl _, fun h => by simp at h⟩
  | cons e entries ih =>
    rw [List.mapM_cons] at hlists
    obtain ⟨list, hlist, hrest⟩ := Option.bind_eq_some_iff.1 hlists
    obtain ⟨others, hothers, hcons⟩ := Option.bind_eq_some_iff.1 hrest
    obtain rfl := Option.some.inj hcons
    obtain ⟨hsub, hmem⟩ := ih others hothers
    obtain ⟨current, hcurrent, hlist⟩ := Option.bind_eq_some_iff.1 hlist
    rw [List.flatten_cons, List.map_append]
    rcases current with _ | current
    · obtain rfl := Option.some.inj hlist
      refine ⟨hsub.cons_cons e.1, fun {b source target} hb => ?_⟩
      rcases List.mem_append.1 hb with hb | hb
      · exact absurd (Prod.mk.inj (List.mem_singleton.1 hb)).2 (by rintro ⟨⟩)
      · exact hmem hb
    · obtain rfl := Option.some.inj hlist
      split_ifs with hlt
      · refine ⟨hsub.cons_cons e.1, fun {b source target} hb => ?_⟩
        rcases List.mem_append.1 hb with hb | hb
        · obtain ⟨rfl, hresize⟩ := Prod.mk.inj (List.mem_singleton.1 hb)
          obtain ⟨rfl, rfl⟩ := AccountOperation.resize.inj hresize
          exact ⟨hcurrent, hlt⟩
        · exact hmem hb
      · exact ⟨hsub.cons e.1, hmem⟩

/-- **The operations** on the accounts leave the slots alone. -/
theorem processAccountsOperations_ok [Runtime.Lawful] (hapart : AddressesApart)
    {stale : Address → Prop} (hR : S₀.Reached S σ stale) {actions : List Action} {operator : Pubkey}
    {operations : List (Address × AccountOperation)} {readiness : AccountsReadiness}
    (hoperations : S.calcAccountsOperations actions = some operations)
    (h : processAccountsOperations operator operations S = .ok readiness S') :
    S₀.Reached S' σ stale := by
  obtain ⟨hnodup, hsize⟩ := calcAccountsOperations_ok hR.coherent hoperations
  suffices hall : S₀.Reached S' σ stale ∧ ∀ b : Address, b ∉ operations.map Prod.fst →
      Ledger.Untouched b.key S.ledger S'.ledger from hall.1
  refine foldl_invariant (I := fun done _ S' => S₀.Reached S' σ stale ∧
    ∀ b : Address, b ∉ done.map Prod.fst → Ledger.Untouched b.key S.ledger S'.ledger) ?_
    ⟨hR, fun b _ hb => ⟨hb, rfl⟩⟩ h
  rintro done operation rest _ S₁ _ S₂ hsplit ⟨hR₁, huntouched⟩ hstep
  have hnot : operation.1 ∉ done.map Prod.fst := by
    rw [hsplit, List.map_append, List.map_cons, List.nodup_append] at hnodup
    exact fun hmem => hnodup.2.2 _ hmem _ List.mem_cons_self rfl
  have hnext := processOperation_ok hapart (fun {source target} hresize => ?_) hstep
  · refine ⟨hR₁.steady hnext.1, fun b hb hbk => ?_⟩
    rw [List.map_append, List.mem_append, not_or] at hb
    obtain ⟨howner, hcontent⟩ := huntouched b hb.1 hbk
    obtain ⟨howner', hcontent'⟩ := hnext.2 b (fun h => hb.2 (List.mem_singleton.2 h)) howner
    exact ⟨howner', hcontent'.trans hcontent⟩
  · have hmem : (operation.1, .resize source target) ∈ operations := by
      rw [hsplit, ← hresize]
      exact List.mem_append_right _ List.mem_cons_self
    obtain ⟨howner, hlen, hlt⟩ := hsize hmem
    exact ⟨by rw [(huntouched _ hnot howner).2, hlen], hlt⟩

end ProgramAccountStorage

/-! ## The journal -/

/-- **The slots after a journal.** -/
def Storage.after (σ : Storage) (actions : List Action) : Storage := fun a =>
  if a ∈ destroyedBy actions then 0 else σ.writeAll a (writesTo a actions) a

section Rearranged

omit [Platform] [Runtime]

variable {actions : List Action} {a : Address}

theorem destroyed_eq_some {x : Action} : x.destroyed = some a ↔ x = .evmSelfDestruct a := by
  rcases x with _ | _ | _ | _ | _ | _ | b
  case evmSelfDestruct => exact ⟨fun h => congrArg _ (Option.some.inj h), fun h => by cases h; rfl⟩
  all_goals exact ⟨fun h => (nomatch h), fun h => (nomatch h)⟩

theorem mem_rearrangeActions {x : Action} :
    x ∈ rearrangeActions actions ↔
      x ∈ actions ∧ (x.stays (destroyedBy actions) = true ∨ x.destroyed.isSome = true) := by
  rw [rearrangeActions, List.mem_append, List.mem_filter, List.mem_filter, ← and_or_left,
    destroyedBy]

/-- **What is destroyed** does not depend on the order. -/
theorem mem_destroyedBy_rearrange :
    a ∈ destroyedBy (rearrangeActions actions) ↔ a ∈ destroyedBy actions := by
  rw [destroyedBy, destroyedBy, List.mem_filterMap, List.mem_filterMap]
  refine exists_congr fun x => and_congr_left fun hx => ?_
  rw [mem_rearrangeActions, hx]
  exact and_iff_left (.inr rfl)

/-- **Writes** to what is destroyed are dropped. -/
theorem writesTo_rearrange :
    writesTo a (rearrangeActions actions) =
      if a ∈ destroyedBy actions then [] else writesTo a actions := by
  have hdestroys : (actions.filter (·.destroyed.isSome)).filterMap (Action.writtenTo a) = [] := by
    rw [List.filterMap_eq_nil_iff]
    intro x hx
    obtain ⟨b, hb⟩ := Option.isSome_iff_exists.1 (List.mem_filter.1 hx).2
    rw [destroyed_eq_some.1 hb]
    rfl
  rw [writesTo, writesTo, rearrangeActions, List.filterMap_append, hdestroys, List.append_nil,
    List.filterMap_filter, ← destroyedBy]
  split_ifs with ha
  · rw [List.filterMap_eq_nil_iff]
    intro x _
    rcases x with _ | _ | _ | ⟨b, i, v⟩ | _ | _ | _
    case evmSetStorage =>
      rw [Action.stays, Action.writtenTo]
      split_ifs with hb hba
      · exact absurd (hba ▸ ha) (of_decide_eq_true hb)
      · rfl
      · rfl
    all_goals exact ite_self _
  · refine List.filterMap_congr fun x _ => ?_
    rcases x with _ | _ | _ | ⟨b, i, v⟩ | _ | _ | _
    case evmSetStorage =>
      rw [Action.stays, Action.writtenTo]
      by_cases hba : b = a
      · rw [if_pos (decide_eq_true (show b ∉ destroyedBy actions from hba ▸ ha))]
      · rw [if_neg hba, ite_self]
    all_goals exact ite_self _

theorem spares_rearrange {x : Action} (h : x ∈ rearrangeActions actions) :
    x.Spares (destroyedBy actions) := by
  obtain ⟨hx, hstays⟩ := mem_rearrangeActions.1 h
  rcases x with _ | _ | _ | ⟨b, i, v⟩ | _ | _ | b
  case evmSetStorage =>
    have hb : decide (b ∉ destroyedBy actions) = true := hstays.resolve_right Bool.false_ne_true
    show b ∉ destroyedBy actions
    exact of_decide_eq_true hb
  case evmSelfDestruct => exact List.mem_filterMap.2 ⟨_, hx, rfl⟩
  all_goals trivial

end Rearranged

namespace ProgramAccountStorage

variable {S S' : ProgramAccountStorage}

/-- **Applying a journal** to fresh handles. -/
theorem applyStateChange_ok [Runtime.Lawful] (hapart : AddressesApart) (hS : S.Coherent)
    (hnamed : S.Named) (hfresh : ∀ a, S.FreshAt a) {operator : Pubkey} {actions : List Action}
    (hforeign : ∀ x ∈ actions, x.IsForeign) {readiness : AccountsReadiness}
    (h : applyStateChange operator actions S = .ok readiness S') :
    S'.Coherent ∧ ∀ a i, S'.ledger.slot a i =
      if readiness = .ready then Storage.after S.ledger.slot actions a i else S.ledger.slot a i := by
  simp only [applyStateChange, bind_eq_ok, get_eq_ok, ofOption_eq_ok] at h
  obtain ⟨_, _, ⟨rfl, rfl⟩, operations, _, ⟨hoperations, rfl⟩, r, S₁, hprocess, h⟩ := h
  have hR := processAccountsOperations_ok hapart hS.reached hoperations hprocess
  split_ifs at h with hr
  · obtain ⟨rfl, rfl⟩ := pure_eq_ok.1 h
    exact ⟨hR.coherent, fun a i => hR.slot a i⟩
  · simp only [bind_eq_ok, pure_eq_ok] at h
    obtain ⟨_, S₂, hcreate, storage, S₃, hactions, _, S₄, hstorage, rfl, rfl⟩ := h
    have hR₂ : S.Reached S₂ S.ledger.slot fun _ => False := by
      refine foldl_invariant (I := fun _ _ S' => S.Reached S' S.ledger.slot fun _ => False) ?_ hR
        hcreate
      exact fun _ _ _ _ _ _ _ _ hR hstep => createAccountIfNotExists_ok hR hnamed hstep
    have hA : Applying S S.ledger.slot (destroyedBy actions) (rearrangeActions actions) storage S₃ := by
      refine foldl_invariant
        (I := fun done storage S' => Applying S S.ledger.slot (destroyedBy actions) done storage S')
        ?_ ⟨?_, fun _ => rfl, fun h => by simp at h⟩ hactions
      · rintro done x rest _ _ _ _ hsplit hA hstep
        have hx : x ∈ rearrangeActions actions := by
          rw [hsplit]
          exact List.mem_append_right _ List.mem_cons_self
        exact applyAction_ok hA (hforeign x (mem_rearrangeActions.1 hx).1) (spares_rearrange hx) hstep
      · exact ⟨hR₂.coherent, hR₂.supplied, hR₂.slot, fun _ => hR₂.fresh id⟩
    have hR₄ := applyStorage_ok hA.reached hnamed
      (fun ha hd => hA.spared ha (mem_destroyedBy_rearrange.1 hd)) hfresh hstorage
    refine ⟨hR₄.coherent, fun a i => ?_⟩
    rw [if_pos rfl, hR₄.slot, Storage.after, hA.pending, writesTo_rearrange]
    split_ifs with ha
    · exact congrFun (if_pos (mem_destroyedBy_rearrange.2 ha)) i
    · exact congrFun (Storage.writeAll_congr (if_neg fun h => ha (mem_destroyedBy_rearrange.1 h)) _) i

end ProgramAccountStorage

end NeonEvm
