import NeonEvm.AccountStorage.History
import NeonEvm.AccountStorage.PageMap

/-!
# AccountStorage/Rent — pages pay their rent

    set        one record more, and what the account now lacks is noted under its key
    at the end the operator pays what is noted

A later note replaces an earlier one: no lamports are paid in between, so the last one covers the
whole length.
-/

namespace NeonEvm

open Exec Packable Chunks EthereumStorage

/-- An invocation of the system program. -/
def Invocation.OfSystem : Invocation → Prop
  | .external _ => False
  | _ => True

/-- The lamports that an invocation of the system program pays to an account of ours. -/
def Invocation.paidTo (k : Pubkey) : Invocation → ℕ
  | .transfer _ target lamports => if target = k then lamports else 0
  | _ => 0

section

variable [Platform] [Runtime]

omit [Platform] in
theorem Invocation.OfSystem.isForeign {i : Invocation} (h : i.OfSystem) : i.IsForeign := by
  cases i with
  | external _ => exact h.elim
  | _ => trivial

/-- The rules of the system program: it takes nothing from an account of ours, and a transfer pays
what it says. -/
class Runtime.Pays : Prop extends Runtime.Lawful where
  paid {i : Invocation} {seeds : List Bytes} {L L' : Ledger} {k : Pubkey} (hi : i.OfSystem)
    (h : Runtime.invoke i seeds L = .ok L') (howner : (L k).owner = programId) :
    (L' k).lamports = (L k).lamports + i.paidTo k

namespace Ledger

/-- The account has the lamports that its length asks for. -/
def RentExempt (L : Ledger) (k : Pubkey) : Prop :=
  ∃ m, Platform.minimumBalance (L k).content.len = .ok m ∧ m ≤ (L k).lamports

/-- Neither the lamports nor the length of the account differ. -/
structure SameRent (L L' : Ledger) (k : Pubkey) : Prop where
  lamports : (L' k).lamports = (L k).lamports
  len : (L' k).content.len = (L k).content.len

/-- The account holds a page. -/
def IsPage (L : Ledger) (k : Pubkey) : Prop := ∃ e, L.held EthereumStorage k = some e

variable {L L' L'' : Ledger} {k : Pubkey}

omit [Platform] [Runtime] in
theorem sameRent_refl : L.SameRent L k := ⟨rfl, rfl⟩

omit [Platform] [Runtime] in
theorem SameRent.trans (h : L.SameRent L' k) (h' : L'.SameRent L'' k) : L.SameRent L'' k :=
  ⟨h'.lamports.trans h.lamports, h'.len.trans h.len⟩

omit [Runtime] in
theorem RentExempt.of_sameRent (h : L.RentExempt k) (hsame : L.SameRent L' k) :
    L'.RentExempt k := by
  rw [RentExempt, hsame.lamports, hsame.len]
  exact h

omit [Platform] in
theorem isPage_iff : L.IsPage k ↔ (L k).owner = programId ∧ ∃ p rest, (L k).content = .storage p rest := by
  constructor
  · rintro ⟨⟨p, rest⟩, h⟩
    obtain ⟨howner, hcontent⟩ := held_storage.1 h
    exact ⟨howner, p, rest, hcontent⟩
  · rintro ⟨howner, p, rest, hcontent⟩
    exact ⟨(p, rest), held_storage.2 ⟨howner, hcontent⟩⟩

/-! ## Other accounts while a page is made -/

/-- Other programs were at work, and only the account under the key was paid, of ours. -/
structure Spares (key : Pubkey) (L L' : Ledger) : Prop where
  isForeign : L.Foreign L'
  lamports : ∀ {k}, k ≠ key → (L k).owner = programId → (L' k).lamports = (L k).lamports

instance {key : Pubkey} : Std.Refl (Spares key) := ⟨fun L => ⟨refl_of Foreign L, fun _ _ => rfl⟩⟩

instance {key : Pubkey} : IsTrans Ledger (Spares key) where
  trans _ _ _ h h' := ⟨Trans.trans h.isForeign h'.isForeign, fun hk howner =>
    (h'.lamports hk (h.isForeign.keeps howner).1).trans (h.lamports hk howner)⟩

section

variable [Runtime.Pays] {key : Pubkey}

theorem returns_spares_invokeSigned {i : Invocation} (seeds : List Bytes) (hi : i.OfSystem)
    (hpaid : ∀ k, k ≠ key → i.paidTo k = 0) : Returns (Spares key) (invokeSigned i seeds) := by
  intro L u L' h
  refine ⟨returns_invokeSigned seeds hi.isForeign _ _ _ h, fun {k} hk howner => ?_⟩
  unfold invokeSigned at h
  split at h
  · cases h
    rw [Runtime.Pays.paid hi ‹_› howner, hpaid k hk, Nat.add_zero]
  · cases h

theorem returns_spares_topUp (payer : Pubkey) (lamports : ℕ) :
    Returns (Spares key) (topUp payer key lamports) :=
  returns_ite (fun _ => returns_spares_invokeSigned (i := .transfer ..) _ trivial
    fun _ hk => if_neg hk.symm) fun _ => (moves_pure ()).returns

theorem returns_spares_createAccountWithSeed (payer base owner : Pubkey)
    (contract : EthereumAccount) (seed : Bytes) (space : ℕ) :
    Returns (Spares key) (createAccountWithSeed payer base contract owner key seed space) := by
  refine returns_bind (moves_lift _).returns fun _ => returns_bind (moves_gets _).returns fun _ =>
    returns_ite (fun _ => ?_) fun _ =>
      returns_spares_invokeSigned (i := .createAccountWithSeed ..) _ trivial fun _ _ => rfl
  refine returns_bind (returns_spares_topUp _ _) fun _ => ?_
  exact returns_bind (returns_spares_invokeSigned (i := .allocateWithSeed ..) _ trivial
    fun _ _ => rfl) fun _ => returns_spares_invokeSigned (i := .assignWithSeed ..) _ trivial
      fun _ _ => rfl

end

end Ledger

/-! ## What a page owes -/

theorem initAccount_exempt {τ : Type} [Packable τ] {info : AccountMeta} {d : τ} {L L' : Ledger}
    {u : Unit} (h : initAccount info d L = .ok u L') :
    L.RentExempt info.pubkey ∧ SIZE τ ≤ (L info.pubkey).content.len := by
  simp only [initAccount, accountAt, bind_eq_ok, gets_eq_ok, failIf_eq_ok, modify_eq_ok] at h
  obtain ⟨_, _, ⟨rfl, rfl⟩, _, _, ⟨-, rfl⟩, _, _, ⟨-, rfl⟩, m, _, hm, _, _, ⟨hle, rfl⟩, _, _,
    ⟨hlen, rfl⟩, -⟩ := h
  obtain ⟨hminimum, rfl⟩ := minimumBalance_ok hm
  exact ⟨⟨m, hminimum, by simpa using hle⟩, by simpa using hlen⟩

namespace ProgramAccountStorage

variable {S S' : ProgramAccountStorage} {L₀ L L' : Ledger} {k key : Pubkey}
  {transfers transfers' : Transfers} {i v : U256} {u : Unit}

/-- What is noted for the page makes it exempt; or it neither grew nor was paid. -/
def Covered (L₀ : Ledger) (transfers : Transfers) (L : Ledger) (k : Pubkey) : Prop :=
  (∃ m, Platform.minimumBalance (L k).content.len = .ok m ∧
    m ≤ (L k).lamports + (transfers.lookup k).getD 0) ∨
  transfers.lookup k = none ∧ L₀.IsPage k ∧ L₀.SameRent L k

/-- Every page is covered. -/
def Accrued (L₀ : Ledger) (transfers : Transfers) (L : Ledger) : Prop :=
  ∀ {k}, L.IsPage k → Covered L₀ transfers L k

theorem accrued_start : Accrued L₀ ∅ L₀ := fun hk =>
  .inr ⟨AList.lookup_empty _, hk, Ledger.sameRent_refl⟩

theorem Covered.of_sameRent (h : Covered L₀ transfers L k) (hsame : L.SameRent L' k) :
    Covered L₀ transfers L' k := by
  rcases h with ⟨m, hm, hle⟩ | ⟨hnone, hpage, hsame₀⟩
  · refine .inl ⟨m, ?_, ?_⟩
    · rwa [hsame.len]
    · rwa [hsame.lamports]
  · exact .inr ⟨hnone, hpage, hsame₀.trans hsame⟩

omit [Platform] [Runtime] in
theorem sameRent_setContent_of_ne {c : Content} (hk : k ≠ key) :
    L.SameRent (L.setContent key c) k := by
  constructor <;> rw [Ledger.setContent_of_ne hk]

/-- **A write to another account** that holds no page afterwards. -/
theorem Accrued.setOther (h : Accrued L₀ transfers L) {c : Content}
    (hc : split c = (none : Option (EthereumStorage × Bytes))) :
    Accrued L₀ transfers (L.setContent key c) := by
  rintro k ⟨e, he⟩
  rw [Ledger.held_setContent] at he
  by_cases hk : k = key
  · rw [if_pos hk, hc] at he
    split_ifs at he
  · rw [if_neg hk] at he
    exact (h ⟨e, he⟩).of_sameRent (sameRent_setContent_of_ne hk)

/-- **A page that was made** pays its rent. -/
theorem createStorage_exempt {operator : Pubkey} {contract : Handle EthereumAccount}
    {info : AccountMeta} {index : U256} {subindex : UInt8}
    (h : createStorage operator contract info index subindex v L = .ok u L') :
    L'.RentExempt info.pubkey := by
  obtain ⟨_, L₁, -, h⟩ := bind_eq_ok.1 h
  obtain ⟨_, L₂, hinit, h⟩ := bind_eq_ok.1 h
  obtain ⟨⟨m, hm, hle⟩, hsize⟩ := initAccount_exempt hinit
  obtain ⟨-, -, rfl⟩ := initAccount_ok hinit
  obtain ⟨⟨e, rest⟩, L₃, hopen, h⟩ := bind_eq_ok.1 h
  obtain ⟨rfl, hheld⟩ := openAccount_ok hopen
  obtain ⟨_, L₄, hassert, h⟩ := bind_eq_ok.1 h
  obtain ⟨hlen, rfl⟩ := assertThat_eq_ok.1 hassert
  obtain rfl := modify_eq_ok.1 h
  have hrest : (L₁ info.pubkey).content.len - SIZE EthereumStorage = RECORD := by
    obtain ⟨-, hcontent⟩ := Ledger.held_storage.1 hheld
    rw [Ledger.content_setContent_self] at hcontent
    obtain ⟨-, rfl⟩ := Content.storage.inj hcontent
    simpa using hlen
  refine ⟨m, ?_, ?_⟩
  · rw [Ledger.content_setContent_self, ← hm]
    refine congrArg _ ?_
    rw [Content.len, length_record, ← hrest, Nat.add_sub_cancel' hsize]
  · rw [Ledger.setContent_setContent, Ledger.setContent_apply, if_pos rfl]
    exact hle

/-- **Making a page** leaves the others. -/
theorem Accrued.createStorage [Runtime.Pays] (h : Accrued L₀ transfers L) {operator : Pubkey}
    {contract : Handle EthereumAccount} {info : AccountMeta} {index : U256} {subindex : UInt8}
    (hcreate : createStorage operator contract info index subindex v L = .ok u L') :
    Accrued L₀ transfers L' := by
  obtain ⟨m, hm, hle⟩ := createStorage_exempt hcreate
  obtain ⟨_, L₁, hspares, hrest⟩ := bind_eq_ok.1 hcreate
  have hspares := Ledger.returns_spares_createAccountWithSeed _ _ _ _ _ _ _ _ _ hspares
  obtain ⟨_, L₂, hinit, hrest⟩ := bind_eq_ok.1 hrest
  obtain ⟨-, -, rfl⟩ := initAccount_ok hinit
  obtain ⟨⟨e, rest⟩, L₃, hopen, hrest⟩ := bind_eq_ok.1 hrest
  obtain ⟨rfl, -⟩ := openAccount_ok hopen
  obtain ⟨_, L₄, hassert, hrest⟩ := bind_eq_ok.1 hrest
  obtain ⟨-, rfl⟩ := assertThat_eq_ok.1 hassert
  obtain rfl := modify_eq_ok.1 hrest
  rw [Ledger.setContent_setContent] at hm hle ⊢
  rintro k ⟨e', he'⟩
  by_cases hk : k = info.pubkey
  · subst hk
    exact .inl ⟨m, hm, hle.trans (Nat.le_add_right ..)⟩
  · rw [Ledger.held_setContent, if_neg hk, hspares.isForeign.held_eq fun _ => rfl] at he'
    have howner := (Ledger.held_storage.1 he').1
    exact (h ⟨e', he'⟩).of_sameRent (Ledger.SameRent.trans
      ⟨hspares.lamports hk howner, by rw [(hspares.isForeign.keeps howner).2]⟩
      (sameRent_setContent_of_ne hk))

omit [Platform] [Runtime] in
/-- A record that is overwritten leaves the length. -/
theorem length_setRest_present {rest : Bytes} {subindex : UInt8}
    (h : (setPresent rest subindex v).isSome) :
    (setRest rest subindex v).length = rest.length := by
  obtain ⟨written, hwritten⟩ := Option.isSome_iff_exists.1 h
  rw [setRest, hwritten, Option.getD_some]
  obtain ⟨n, hn, rfl⟩ := Option.map_eq_some_iff.1 hwritten
  obtain ⟨hlt, -, -⟩ := List.findIdx?_eq_some_iff_getElem.1 hn
  rw [chunksExact, List.length_map, List.length_range] at hlt
  refine length_overwrite ?_
  have hend : RECORD * (n + 1) ≤ rest.length :=
    (Nat.mul_le_mul_left _ hlt).trans (Nat.mul_div_le ..)
  rw [U256.length_bytes]
  rw [Nat.mul_succ] at hend
  exact (Nat.add_assoc (RECORD * n) 1 32) ▸ hend

omit [Platform] [Runtime] in
theorem length_setRest_absent {rest : Bytes} {subindex : UInt8}
    (h : ¬(setPresent rest subindex v).isSome) :
    (setRest rest subindex v).length = rest.length + RECORD := by
  rw [setRest, Option.not_isSome_iff_eq_none.1 h, Option.getD_none, List.length_append,
    length_record]

/-- **A write to a page**: a record that was there stays, or what one more needs is noted. -/
theorem Accrued.setStorage (h : Accrued L₀ transfers S.ledger) {page : Handle EthereumStorage}
    {subindex : UInt8} (hpage : S.ledger.handle? EthereumStorage key = some page)
    (hset : setStorage page transfers subindex v S = .ok transfers' S') :
    Accrued L₀ transfers' S'.ledger := by
  obtain ⟨p, rest, hcontent, hledger, hnoted⟩ := setStorage_cases hpage hset
  have hlamports : (S'.ledger key).lamports = (S.ledger key).lamports := by
    rw [hledger, Ledger.setContent_apply, if_pos rfl]
  have hlen : (S'.ledger key).content.len =
      SIZE EthereumStorage + (setRest rest subindex v).length := by
    rw [hledger, Ledger.content_setContent_self]
    rfl
  intro k hk
  have hbefore : S.ledger.IsPage k := by
    rw [hledger] at hk
    obtain ⟨howner, p', r, hk⟩ := Ledger.isPage_iff.1 hk
    rw [Ledger.owner_setContent] at howner
    by_cases hkey : k = key
    · exact Ledger.isPage_iff.2 ⟨howner, p, rest, hkey ▸ hcontent⟩
    · exact Ledger.isPage_iff.2 ⟨howner, p', r, by rwa [Ledger.setContent_of_ne hkey] at hk⟩
  have hcovered := h hbefore
  by_cases hkey : k = key
  · subst hkey
    rcases hnoted with ⟨hpresent, rfl⟩ | ⟨habsent, m, hm, rfl⟩
    · refine hcovered.of_sameRent ⟨hlamports, ?_⟩
      rw [hlen, length_setRest_present hpresent, hcontent]
      rfl
    · refine .inl ⟨m, ?_, ?_⟩
      · rw [hlen, length_setRest_absent habsent, ← Nat.add_assoc, hm]
      · rw [hlamports]
        split_ifs with hlt
        · rw [AList.lookup_insert, Option.getD_some]
          exact Nat.sub_le_iff_le_add'.1 le_rfl
        · exact (Nat.not_lt.1 hlt).trans (Nat.le_add_right ..)
  · have hlookup : transfers'.lookup k = transfers.lookup k := by
      rcases hnoted with ⟨-, rfl⟩ | ⟨-, m, -, rfl⟩
      · rfl
      · split_ifs
        · exact AList.lookup_insert_ne hkey
        · rfl
    have hsame : S.ledger.SameRent S'.ledger k := hledger ▸ sameRent_setContent_of_ne hkey
    rw [Covered, hlookup]
    exact hcovered.of_sameRent hsame

/-! ## All slots -/

variable [Runtime.Pays] {operator : Pubkey}

theorem Accrued.applyPaged (h : Accrued L₀ transfers S.ledger) {contract : Handle EthereumAccount}
    (happly : applyPaged operator contract transfers i v S = .ok transfers' S') :
    Accrued L₀ transfers' S'.ledger := by
  obtain ⟨_, _, hget, hrest⟩ := bind_eq_ok.1 happly
  obtain ⟨rfl, rfl⟩ := get_eq_ok.1 hget
  rcases hk : S.storageAccounts.lookup (contract.data.address, pageOf i) with _ | key
  · simp only [hk] at hrest
    rcases hs : S.solanaAccounts.lookup (EthereumStorage.pubkey contract.key (pageOf i)) with
      _ | info
    · simp only [hs] at hrest
      exact (fail_eq_ok.1 hrest).elim
    · simp only [hs] at hrest
      obtain ⟨_, _, hfail, hrest⟩ := bind_eq_ok.1 hrest
      obtain ⟨-, rfl⟩ := failIf_eq_ok.1 hfail
      split_ifs at hrest with hv
      · obtain ⟨rfl, rfl⟩ := pure_eq_ok.1 hrest
        exact h
      · obtain ⟨_, S₁, hcreate, hrest⟩ := bind_eq_ok.1 hrest
        obtain ⟨_, S₂, hmodify, hrest⟩ := bind_eq_ok.1 hrest
        obtain ⟨rfl, rfl⟩ := pure_eq_ok.1 hrest
        obtain rfl := modify_eq_ok.1 hmodify
        obtain ⟨L, hL, rfl⟩ := zoom_eq_ok.1 hcreate
        exact h.createStorage hL
  · simp only [hk, bind_eq_ok, ofOption_eq_ok] at hrest
    obtain ⟨page, _, ⟨hpage, rfl⟩, hset⟩ := hrest
    exact h.setStorage hpage hset

/-- **One slot.** -/
theorem Accrued.applySlot (h : Accrued L₀ transfers S.ledger) {a : Address} {slot : U256 × U256}
    (happly : applySlot operator a transfers slot S = .ok transfers' S') :
    Accrued L₀ transfers' S'.ledger := by
  obtain ⟨i, v⟩ := slot
  obtain ⟨_, _, hget, hrest⟩ := bind_eq_ok.1 happly
  obtain ⟨rfl, rfl⟩ := get_eq_ok.1 hget
  obtain ⟨contract, _, hcontract, hrest⟩ := bind_eq_ok.1 hrest
  obtain ⟨-, rfl⟩ := ofOption_eq_ok.1 hcontract
  obtain ⟨_, _, hassert, hrest⟩ := bind_eq_ok.1 hrest
  obtain ⟨-, rfl⟩ := assertThat_eq_ok.1 hassert
  split_ifs at hrest with hi
  · obtain ⟨_, _, hlength, hrest⟩ := bind_eq_ok.1 hrest
    obtain ⟨-, rfl⟩ := assertThat_eq_ok.1 hlength
    obtain ⟨_, _, hsave, hrest⟩ := bind_eq_ok.1 hrest
    obtain rfl := save_ok hsave
    obtain ⟨rfl, rfl⟩ := pure_eq_ok.1 hrest
    exact h.setOther rfl
  · exact h.applyPaged hrest

/-! ## The payments -/

/-- What is still noted for the page makes it exempt, once the payments to `paid` were made. -/
def Settling (L₀ : Ledger) (transfers : Transfers) (paid : List Pubkey) (L : Ledger) : Prop :=
  ∀ {k}, L.IsPage k →
    (∃ m, Platform.minimumBalance (L k).content.len = .ok m ∧
      m ≤ (L k).lamports + if k ∈ paid then 0 else (transfers.lookup k).getD 0) ∨
    transfers.lookup k = none ∧ L₀.IsPage k ∧ L₀.SameRent L k

/-- **One payment.** -/
theorem Settling.pay {paid : List Pubkey} {lamports : ℕ} (h : Settling L₀ transfers paid L)
    (hkey : transfers.lookup key = some lamports) (hpaid : key ∉ paid)
    (hpay : systemTransfer operator key lamports L = .ok u L') :
    Settling L₀ transfers (paid ++ [key]) L' := by
  have hforeign := returns_systemTransfer _ _ _ _ _ _ hpay
  rintro k ⟨e, he⟩
  rw [hforeign.held_eq fun _ => rfl] at he
  have howner := (Ledger.held_storage.1 he).1
  have hlamports : (L' k).lamports = (L k).lamports + if key = k then lamports else 0 := by
    unfold systemTransfer invokeSigned at hpay
    split at hpay
    · cases hpay
      exact Runtime.Pays.paid (i := .transfer ..) trivial ‹_› howner
    · cases hpay
  rw [(hforeign.keeps howner).2, hlamports]
  rcases h ⟨e, he⟩ with ⟨m, hm, hle⟩ | ⟨hnone, hpage, hsame⟩
  · refine .inl ⟨m, hm, hle.trans ?_⟩
    by_cases hk : key = k
    · subst hk
      rw [if_neg hpaid, if_pos rfl, hkey, Option.getD_some]
      exact Nat.le_add_right ..
    · have hmem : k ∈ paid ++ [key] ↔ k ∈ paid := by
        rw [List.mem_append, List.mem_singleton, or_iff_left (Ne.symm hk)]
      rw [if_neg hk, Nat.add_zero]
      exact Nat.add_le_add_left (le_of_eq (if_congr hmem.symm rfl rfl)) _
  · have hk : ¬key = k := fun hk => by rw [← hk, hkey] at hnone; cases hnone
    refine .inr ⟨hnone, hpage, hsame.lamports ▸ ?_, ?_⟩
    · rw [hlamports, if_neg hk, Nat.add_zero]
    · rw [(hforeign.keeps howner).2]
      exact hsame.len

/-- **After the payments** every page is exempt, or has neither grown nor been paid. -/
theorem applyStorage_rent {storage : Slots} (h : applyStorage operator storage S = .ok u S')
    (hk : S'.ledger.IsPage k) :
    S'.ledger.RentExempt k ∨ S.ledger.IsPage k ∧ S.ledger.SameRent S'.ledger k := by
  obtain ⟨transfers, S₁, hslots, htransfers⟩ := bind_eq_ok.1 h
  have haccrued : Accrued S.ledger transfers S₁.ledger := by
    refine foldl_invariant (I := fun _ transfers S₁ => Accrued S.ledger transfers S₁.ledger) ?_
      accrued_start hslots
    rintro _ ⟨a, ws⟩ _ transfers S₂ transfers' S₃ - hS₂ hcontract
    refine foldl_invariant (I := fun _ transfers S₁ => Accrued S.ledger transfers S₁.ledger) ?_ hS₂
      hcontract
    exact fun _ _ _ _ _ _ _ _ hS hslot => hS.applySlot hslot
  have hkeys : transfers.entries.keys.Nodup := transfers.nodupKeys
  have hsettled : Settling S.ledger transfers transfers.entries.keys S'.ledger := by
    refine foldl_invariant (I := fun done _ S₂ => Settling S.ledger transfers done.keys S₂.ledger) ?_
      (fun {k} hk => ?_) htransfers
    · rintro done ⟨key, lamports⟩ rest _ S₂ _ S₃ hentries hS₂ hpay
      obtain ⟨L, hL, rfl⟩ := zoom_eq_ok.1 hpay
      have hmem : (⟨key, lamports⟩ : (_ : Pubkey) × ℕ) ∈ transfers.entries := by
        rw [hentries]
        exact List.mem_append_right _ List.mem_cons_self
      have hnot : key ∉ done.keys := by
        rw [hentries, List.keys, List.map_append, List.map_cons, List.nodup_append] at hkeys
        exact fun hkey => hkeys.2.2 key hkey key List.mem_cons_self rfl
      have hsnoc : (done ++ [⟨key, lamports⟩] : List ((_ : Pubkey) × ℕ)).keys = done.keys ++ [key] := by
        rw [List.keys, List.map_append]
        rfl
      rw [hsnoc]
      intro k hk
      exact hS₂.pay (AList.mem_lookup_iff.2 hmem) hnot hL hk
    · exact haccrued hk
  rcases hsettled hk with ⟨m, hm, hle⟩ | ⟨-, hpage, hsame⟩
  · refine .inl ⟨m, hm, hle.trans (le_of_eq ?_)⟩
    split_ifs with hpaid
    · exact Nat.add_zero _
    · have hnone : transfers.lookup k = none := AList.lookup_eq_none.2 hpaid
      rw [hnone, Option.getD_none, Nat.add_zero]
  · exact .inr ⟨hpage, hsame⟩

end ProgramAccountStorage

/-! ## Over the life of the pages -/

/-- More data asks for no fewer lamports. -/
def RentGrows : Prop := ∀ {m n a b : ℕ}, m ≤ n → Platform.minimumBalance m = .ok a →
  Platform.minimumBalance n = .ok b → a ≤ b

/-- The pages of a ledger, from a time when there is none: they are made, cleared, and written by
transactions; nothing else changes their length or takes lamports from them. -/
inductive RentRun : Ledger → Prop
  | start {L : Ledger} (h : ∀ k, ¬L.IsPage k) : RentRun L
  | created {operator : Pubkey} {contract : Handle EthereumAccount} {info : AccountMeta}
      {index v : U256} {i : UInt8} {L L' : Ledger} (hL : RentRun L)
      (h : ProgramAccountStorage.createStorage operator contract info index i v L = .ok () L') :
      RentRun L'
  | cleared {info : AccountMeta} {p : EthereumStorage} {rest : Bytes} {generation : ℕ}
      {operator : Pubkey} {L L' : Ledger} (hL : RentRun L)
      (hpage : (L info.pubkey).content = .storage p rest)
      (h : p.clear info generation operator L = .ok () L') : RentRun L'
  | applied {operator : Pubkey} {storage : ProgramAccountStorage.Slots}
      {S S' : ProgramAccountStorage} (hL : RentRun S.ledger)
      (h : ProgramAccountStorage.applyStorage operator storage S = .ok () S') : RentRun S'.ledger
  | other {L L' : Ledger} (hL : RentRun L) (h : ∀ k, L'.IsPage k →
      L.IsPage k ∧ (L' k).content.len = (L k).content.len ∧ (L k).lamports ≤ (L' k).lamports) :
      RentRun L'

omit [Runtime] in
theorem Ledger.RentExempt.mono {L L' : Ledger} {k : Pubkey} (h : L.RentExempt k)
    (hlen : (L' k).content.len = (L k).content.len)
    (hlamports : (L k).lamports ≤ (L' k).lamports) : L'.RentExempt k := by
  obtain ⟨m, hm, hle⟩ := h
  exact ⟨m, hlen ▸ hm, hle.trans hlamports⟩

omit [Platform] [Runtime] in
theorem Ledger.lamports_setLamports {L : Ledger} {key k : Pubkey} {lamports : ℕ} :
    (L.setLamports key lamports k).lamports = if k = key then lamports else (L k).lamports := by
  rw [setLamports_apply]
  split_ifs <;> rfl

omit [Runtime] in
/-- What a clearing leaves: the page without records and no less than its rent, if it had that. -/
theorem EthereumStorage.clear_leaves {info : AccountMeta} {p : EthereumStorage} {generation : ℕ}
    {operator : Pubkey} {L L' : Ledger} {u : Unit}
    (h : p.clear info generation operator L = .ok u L') :
    ∃ m, Platform.minimumBalance (SIZE EthereumStorage) = .ok m ∧
      (∀ k, (L' k).owner = (L k).owner ∧ (L' k).content =
        (L.setContent info.pubkey (.storage { p with generation } []) k).content) ∧
      ∀ k, (if k = info.pubkey then min (L k).lamports m else (L k).lamports) ≤ (L' k).lamports := by
  simp only [EthereumStorage.clear, minimumBalance, accountAt, bind_eq_ok, assertThat_eq_ok,
    modify_eq_ok, lift_eq_ok, gets_eq_ok] at h
  obtain ⟨_, _, ⟨-, rfl⟩, _, _, rfl, m, _, ⟨hm, rfl⟩, _, _, ⟨rfl, rfl⟩, h⟩ := h
  have hlamports (k : Pubkey) :
      (L.setContent info.pubkey (.storage { p with generation } []) k).lamports =
        (L k).lamports := by
    by_cases hk : k = info.pubkey
    · rw [hk, Ledger.setContent_apply, if_pos rfl]
    · rw [Ledger.setContent_of_ne hk]
  refine ⟨m, ofForeign_eq_ok hm, ?_⟩
  split_ifs at h with hexcess
  · obtain ⟨_, _, hx, hy⟩ := bind_eq_ok.1 h
    obtain rfl := modify_eq_ok.1 hx
    obtain rfl := modify_eq_ok.1 hy
    refine ⟨fun k => ?_, fun k => ?_⟩
    · simp only [Ledger.owner_setLamports, Ledger.content_setLamports, Ledger.owner_setContent,
        true_and]
    · rw [hlamports] at hexcess
      simp only [Ledger.lamports_setLamports, hlamports]
      by_cases hinfo : k = info.pubkey
      · rw [if_pos hinfo, if_pos hinfo, hinfo]
        by_cases hoperator : info.pubkey = operator
        · rw [if_pos hoperator, if_pos hoperator.symm]
          omega
        · rw [if_neg hoperator]
          omega
      · rw [if_neg hinfo]
        split_ifs with hoperator howed
        · exact absurd (hoperator.trans howed) hinfo
        · rw [hoperator]
          exact Nat.le_add_right ..
        · exact le_rfl
  · obtain ⟨-, rfl⟩ := pure_eq_ok.1 h
    refine ⟨fun k => ⟨Ledger.owner_setContent, rfl⟩, fun k => ?_⟩
    rw [hlamports]
    split_ifs
    · exact min_le_left ..
    · exact le_rfl

/-- **Clearing a page** gives back no more than what it has above its rent. -/
theorem EthereumStorage.clear_exempt (hgrows : RentGrows) {info : AccountMeta} {p : EthereumStorage}
    {rest : Bytes} {generation : ℕ} {operator : Pubkey} {L L' : Ledger}
    (hpage : (L info.pubkey).content = .storage p rest)
    (h : p.clear info generation operator L = .ok () L')
    (hbefore : ∀ k, L.IsPage k → L.RentExempt k) {k : Pubkey} (hk : L'.IsPage k) :
    L'.RentExempt k := by
  obtain ⟨m, hm, hkept, hle⟩ := clear_leaves h
  obtain ⟨howner, p', rest', hcontent⟩ := Ledger.isPage_iff.1 hk
  rw [(hkept k).1] at howner
  have hle := hle k
  by_cases hkey : k = info.pubkey
  · subst hkey
    obtain ⟨m', hm', hle'⟩ := hbefore _ (Ledger.isPage_iff.2 ⟨howner, p, rest, hpage⟩)
    refine ⟨m, ?_, ?_⟩
    · rw [(hkept _).2, Ledger.content_setContent_self]
      exact hm
    · rw [hpage] at hm'
      have hsize : m ≤ m' := hgrows (Nat.le_add_right _ rest.length) hm hm'
      rw [if_pos rfl, min_eq_right (hsize.trans hle')] at hle
      exact hle
  · rw [(hkept k).2, Ledger.setContent_of_ne hkey] at hcontent
    rw [if_neg hkey] at hle
    refine (hbefore k (Ledger.isPage_iff.2 ⟨howner, p', rest', hcontent⟩)).mono ?_ hle
    rw [(hkept k).2, Ledger.setContent_of_ne hkey]

/-- **A page pays its rent** all its life. -/
theorem RentRun.exempt [Runtime.Pays] (hgrows : RentGrows) {L : Ledger} (h : RentRun L) :
    ∀ k, L.IsPage k → L.RentExempt k := by
  induction h with
  | start h => exact fun k hk => absurd hk (h k)
  | created _ h ih =>
    intro k hk
    rcases ProgramAccountStorage.accrued_start.createStorage h hk with ⟨m, hm, hle⟩ | ⟨-, hpage, hsame⟩
    · refine ⟨m, hm, hle.trans (le_of_eq ?_)⟩
      rw [AList.lookup_empty, Option.getD_none, Nat.add_zero]
    · exact (ih k hpage).of_sameRent hsame
  | cleared _ hpage h ih => exact fun k => EthereumStorage.clear_exempt hgrows hpage h ih
  | applied _ h ih =>
    intro k hk
    rcases ProgramAccountStorage.applyStorage_rent h hk with hexempt | ⟨hpage, hsame⟩
    · exact hexempt
    · exact (ih k hpage).of_sameRent hsame
  | other _ h ih =>
    intro k hk
    obtain ⟨hpage, hlen, hle⟩ := h k hk
    exact (ih k hpage).mono hlen hle

/-- **A page is a map from bytes to words, and pays its rent** — what a history of a page leaves
reads as the history says, in one record for each byte that was set; behind `apply_storage`
every page that was made or got records has the lamports its length asks for, while any other is as
it was; and so a page has them all its life. -/
theorem page_is_map_and_rent_exempt [Runtime.Pays] :
    (∀ {k : Pubkey} {ops : List PageOp} {L : Ledger}, PageRun k ops L →
      IsMapOf (L k).content ops) ∧
    (∀ {operator : Pubkey} {storage : ProgramAccountStorage.Slots} {S S' : ProgramAccountStorage}
      {k : Pubkey}, ProgramAccountStorage.applyStorage operator storage S = .ok () S' →
        S'.ledger.IsPage k →
        (S'.ledger.RentExempt k ∨ S.ledger.IsPage k ∧ S.ledger.SameRent S'.ledger k) ∧
        ((S.ledger.IsPage k → S.ledger.RentExempt k) → S'.ledger.RentExempt k)) ∧
    (RentGrows → ∀ {L : Ledger}, RentRun L → ∀ k, L.IsPage k → L.RentExempt k) := by
  refine ⟨fun h => h.holds.isMapOf, fun h hk => ?_, fun hgrows _ h => h.exempt hgrows⟩
  have hrent := ProgramAccountStorage.applyStorage_rent h hk
  refine ⟨hrent, fun hbefore => ?_⟩
  rcases hrent with hexempt | ⟨hpage, hsame⟩
  · exact hexempt
  · exact (hbefore hpage).of_sameRent hsame

end

/-! ## One contract with one page -/

/-- A runtime whose system program transfers and creates accounts. -/
@[reducible] def Runtime.paying : Runtime :=
  { Runtime.bare with
    invoke := fun invocation _ L =>
      match invocation with
      | .transfer source target lamports =>
        if (L source).owner = 0 ∧ lamports ≤ (L source).lamports ∧ source ≠ target then
          .ok ((L.setLamports source ((L source).lamports - lamports)).setLamports target
            ((L target).lamports + lamports))
        else .error "transfer"
      | .createAccountWithSeed payer key _ _ lamports space owner =>
        if (L payer).owner = 0 ∧ lamports ≤ (L payer).lamports ∧ (L key).owner = 0 ∧
            payer ≠ key then
          .ok ((L.setLamports payer ((L payer).lamports - lamports)).set key
            ⟨lamports, owner, .raw (List.replicate space 0), false, 0⟩)
        else .error "create account"
      | _ => .error "not supported" }

theorem Runtime.paying_pays :
    let _ := Platform.apart
    let _ := Runtime.paying
    Runtime.Pays := by
  let _ := Platform.apart
  let _ := Runtime.paying
  have hzero : (0 : Pubkey) ≠ 9 := by decide
  have invoke_cases : ∀ {i : Invocation} {seeds : List Bytes} {L L' : Ledger},
      Runtime.invoke i seeds L = .ok L' →
      (∃ source target lamports, i = .transfer source target lamports ∧ (L source).owner = 0 ∧
        L' = (L.setLamports source ((L source).lamports - lamports)).setLamports target
          ((L target).lamports + lamports)) ∨
      ∃ payer key base seed lamports space owner,
        i = .createAccountWithSeed payer key base seed lamports space owner ∧
          (L payer).owner = 0 ∧ (L key).owner = 0 ∧
          L' = (L.setLamports payer ((L payer).lamports - lamports)).set key
            ⟨lamports, owner, .raw (List.replicate space 0), false, 0⟩ := by
    intro i seeds L L' h
    cases i with
    | transfer source target lamports =>
      change (if _ then _ else _) = _ at h
      split_ifs at h with hfunds
      exact .inl ⟨_, _, _, rfl, hfunds.1, (Except.ok.inj h).symm⟩
    | createAccountWithSeed payer key base seed lamports space owner =>
      change (if _ then _ else _) = _ at h
      split_ifs at h with hfunds
      exact .inr ⟨_, _, _, _, _, _, _, rfl, hfunds.1, hfunds.2.2.1, (Except.ok.inj h).symm⟩
    | _ => cases h
  have ours : ∀ {L : Ledger} {k key : Pubkey}, (L key).owner = 0 → (L k).owner = 9 → k ≠ key :=
    fun hkey hk h => hzero (hkey.symm.trans (h ▸ hk))
  refine { systemProgramId_ne := hzero, keeps := ?_, born := ?_, paid := ?_ }
  · intro i seeds L L' k _ h howner
    rcases invoke_cases h with ⟨source, target, lamports, rfl, -, rfl⟩ |
      ⟨payer, key, base, seed, lamports, space, owner, rfl, -, hkey, rfl⟩
    · exact ⟨by rwa [Ledger.owner_setLamports, Ledger.owner_setLamports],
        by rw [Ledger.content_setLamports, Ledger.content_setLamports]⟩
    · rw [Ledger.set_of_ne (ours hkey howner)]
      exact ⟨by rwa [Ledger.owner_setLamports], Ledger.content_setLamports⟩
  · intro i seeds L L' k _ h howner howner'
    rcases invoke_cases h with ⟨source, target, lamports, rfl, -, rfl⟩ |
      ⟨payer, key, base, seed, lamports, space, owner, rfl, -, hkey, rfl⟩
    · rw [Ledger.owner_setLamports, Ledger.owner_setLamports] at howner'
      exact (howner howner').elim
    · by_cases hk : k = key
      · rw [hk, Ledger.set_self]
        exact ⟨space, rfl⟩
      · rw [Ledger.set_of_ne hk, Ledger.owner_setLamports] at howner'
        exact (howner howner').elim
  · intro i seeds L L' k _ h howner
    rcases invoke_cases h with ⟨source, target, lamports, rfl, hsource, rfl⟩ |
      ⟨payer, key, base, seed, lamports, space, owner, rfl, hpayer, hkey, rfl⟩
    · rw [Ledger.setLamports_apply]
      by_cases hk : k = target
      · rw [if_pos hk, hk, Invocation.paidTo, if_pos rfl]
      · rw [if_neg hk, Ledger.setLamports_apply, if_neg (ours hsource howner),
          Invocation.paidTo, if_neg (Ne.symm hk), Nat.add_zero]
    · rw [Ledger.set_of_ne (ours hkey howner), Ledger.setLamports_apply,
        if_neg (ours hpayer howner)]
      rfl

/-- A contract at the address 1, with no page yet, and one who pays. -/
def pagelessLedger : Ledger :=
  (foreignLedger.set sender.pubkey ⟨10 ^ 9, 0, .raw [], false, 0⟩).set firstAccount.pubkey
    ⟨10 ^ 9, 9, .ethereum { EthereumAccount.new 1 255 with codeSize := 1 } [], false, 0⟩

/-- The page, as it is supplied. -/
def firstPage : AccountMeta := ⟨0, false, true⟩

theorem not_isPage_pagelessLedger :
    let _ := Platform.apart
    let _ := Runtime.paying
    ∀ k, ¬pagelessLedger.IsPage k := by
  intro _ _ k hk
  obtain ⟨-, p, rest, hcontent⟩ := Ledger.isPage_iff.1 hk
  rw [pagelessLedger] at hcontent
  by_cases hfirst : k = firstAccount.pubkey
  · rw [hfirst, Ledger.set_self] at hcontent
    cases hcontent
  · rw [Ledger.set_of_ne hfirst] at hcontent
    by_cases hsender : k = sender.pubkey
    · rw [hsender, Ledger.set_self] at hcontent
      cases hcontent
    · rw [Ledger.set_of_ne hsender] at hcontent
      cases hcontent

/-- A record is set in the page, and the test goes on from there. -/
def setThen (i : UInt8) (v : U256) (S : ProgramAccountStorage)
    (test : ProgramAccountStorage → Bool) : Bool :=
  let _ := Platform.apart
  (S.ledger.handle? EthereumStorage 0).any fun page =>
    (ProgramAccountStorage.setStorage page ∅ i v S).okAnd fun _ S' => test S'

theorem PageRun.of_setThen {i : UInt8} {v : U256} {S : ProgramAccountStorage} {ops : List PageOp}
    {test : ProgramAccountStorage → Bool} (h : setThen i v S test = true) :
    let _ := Platform.apart
    let _ := Runtime.paying
    PageRun 0 ops S.ledger → ∃ S', PageRun 0 (.set i v :: ops) S'.ledger ∧ test S' = true := by
  intro _ _ hrun
  obtain ⟨page, hpage, h⟩ := Option.any_eq_true _ _ |>.1 h
  obtain ⟨_, S', hset, h⟩ := Outcome.exists_of_okAnd h
  exact ⟨S', hrun.next (.set hpage hset), h⟩

open ProgramAccountStorage in
/-- No page is loaded. -/
def pageless : ProgramAccountStorage where
  ethereumAccounts := (∅ : HashMap Address Pubkey).insert 1 17
  storageAccounts := ∅
  operator := sender.pubkey
  clock := ⟨0, 0⟩
  solanaAccounts := supplied sender none [firstAccount, firstPage]
  ledger := pagelessLedger

open ProgramAccountStorage in
/-- A page that is made, set twice, cleared and set again; and one that is made and grown by a
transaction, and overwritten by the next one. -/
theorem page_is_map_and_rent_exempt_two :
    let _ := Platform.apart
    let _ := Runtime.paying
    (∃ L, PageRun 0 [.set 66 9, .clear, .set 64 6, .set 65 8, .create 64 7] L ∧
      IsMapOf (L 0).content [.set 66 9, .clear, .set 64 6, .set 65 8, .create 64 7]) ∧
      ∃ S S' S'', applyStorage sender.pubkey ((∅ : Slots).insert 1 [(64, 7), (65, 8)]) S = .ok () S' ∧
        applyStorage sender.pubkey ((∅ : Slots).insert 1 [(64, 9)]) S' = .ok () S'' ∧
        S''.ledger.IsPage 0 ∧ S'.ledger.RentExempt 0 ∧ S''.ledger.RentExempt 0 := by
  let _ := Platform.apart
  let _ := Runtime.paying
  have hpays : Runtime.Pays := Runtime.paying_pays
  have hgrows : RentGrows := fun hle ha hb => by
    rw [← Except.ok.inj ha, ← Except.ok.inj hb]
    exact Nat.mul_le_mul_right _ (Nat.add_le_add_left hle _)
  obtain ⟨hmap, hrent, hlife⟩ := page_is_map_and_rent_exempt
  refine ⟨?_, ?_⟩
  · have htest : (createStorage sender.pubkey
        ⟨17, { EthereumAccount.new 1 255 with codeSize := 1 }, []⟩ firstPage 64 64 7
        pagelessLedger).okAnd (fun _ L => setThen 65 8 { pageless with ledger := L } fun S =>
          setThen 64 6 S fun S => (S.ledger.handle? EthereumStorage 0).any fun page =>
            (page.data.clear firstPage 1 sender.pubkey S.ledger).okAnd fun _ L =>
              setThen 66 9 { pageless with ledger := L } fun _ => true) = true := by
      decide +kernel
    obtain ⟨_, L₁, hcreate, htest⟩ := Outcome.exists_of_okAnd htest
    have hcreated : PageRun 0 [.create 64 7] L₁ := .create (.create rfl hcreate)
    obtain ⟨S₂, hset, htest⟩ := PageRun.of_setThen htest hcreated
    obtain ⟨S₃, hset, htest⟩ := PageRun.of_setThen htest hset
    obtain ⟨page, hpage, htest⟩ := Option.any_eq_true _ _ |>.1 htest
    obtain ⟨_, L₄, hclear, htest⟩ := Outcome.exists_of_okAnd htest
    have hcleared := hset.next (.clear (show firstPage.pubkey = 0 from rfl)
      (Ledger.content_of_handle hpage).2 hclear)
    obtain ⟨S₅, hset, -⟩ := PageRun.of_setThen htest hcleared
    exact ⟨S₅.ledger, hset, hmap hset⟩
  · have htest : (applyStorage sender.pubkey ((∅ : Slots).insert 1 [(64, 7), (65, 8)])
        pageless).okAnd (fun _ S' => (S'.ledger.held EthereumStorage 0).isSome &&
          (applyStorage sender.pubkey ((∅ : Slots).insert 1 [(64, 9)]) S').okAnd fun _ S'' =>
            (S''.ledger.held EthereumStorage 0).isSome) = true := by
      decide +kernel
    obtain ⟨_, S', hS', htest⟩ := Outcome.exists_of_okAnd htest
    obtain ⟨hpage', htest⟩ := Bool.and_eq_true_iff.1 htest
    obtain ⟨_, S'', hS'', hpage''⟩ := Outcome.exists_of_okAnd htest
    have hpage' : S'.ledger.IsPage 0 := Option.isSome_iff_exists.1 hpage'
    have hpage'' : S''.ledger.IsPage 0 := Option.isSome_iff_exists.1 hpage''
    have hexempt := hlife hgrows (.applied (.start not_isPage_pagelessLedger) hS') 0 hpage'
    exact ⟨pageless, S', S'', hS', hS'', hpage'', hexempt, (hrent hS'' hpage'').2 fun _ => hexempt⟩

end NeonEvm
