import NeonEvm.AccountStorage.Apply

/-!
# AccountStorage/Slots — what the ledger holds at a slot

    slot a i = the word in the account of a            i < 64
             = the record in the page of i, if the page and a are of one generation

The view of the ledger that the storage of contracts is stated in.  A `Sound` ledger has every
account of a contract and every page at its own address, with a page never younger than its
contract; the two lemmas on writes (`Sound.setAccount`, `Sound.setPage`) say what one write changes.
-/

namespace NeonEvm

open Packable EthereumStorage

/-- A word of a byte string. -/
def wordAt (bytes : Bytes) (i : ℕ) : U256 := U256.ofBytes ((bytes.drop (i * 32)).take 32)

namespace EthereumAccount

/-- The slots in the contract's own account: none without code. -/
def statics (d : EthereumAccount) (rest : Bytes) : Bytes :=
  if d.codeSize = 0 then [] else rest.take INTERNAL_STORAGE_SIZE

/-- The rest is blank without code, and has room for the slots and the code. -/
structure Fits (d : EthereumAccount) (rest : Bytes) : Prop where
  blank : d.codeSize = 0 → ∀ b ∈ rest, b = 0
  room : d.codeSize ≠ 0 → INTERNAL_STORAGE_SIZE + d.codeSize ≤ rest.length

theorem statics_of_codeSize {d : EthereumAccount} (h : d.codeSize = 0) (rest : Bytes) :
    d.statics rest = [] := if_pos h

variable {d : EthereumAccount} {rest : Bytes}

theorem Fits.append (h : d.Fits rest) (n : ℕ) :
    d.Fits (rest ++ List.replicate n 0) where
  blank hd b hb := by
    rcases List.mem_append.1 hb with hb | hb
    · exact h.blank hd b hb
    · exact List.eq_of_mem_replicate hb
  room hd := (h.room hd).trans (by rw [List.length_append]; exact Nat.le_add_right ..)

theorem Fits.statics_append (h : d.Fits rest)
    (bytes : Bytes) : d.statics (rest ++ bytes) = d.statics rest := by
  rw [statics, statics]
  split_ifs with hd
  · rfl
  · exact List.take_append_of_le_length ((Nat.le_add_right ..).trans (h.room hd))

end EthereumAccount

theorem wordAt_nil (i : ℕ) : wordAt [] i = 0 := by
  rw [wordAt, List.drop_nil, List.take_nil]
  rfl

/-! ## Views -/

namespace Ledger

section

variable [Runtime]

/-- An account of ours of the kind `τ`. -/
def held (L : Ledger) (τ : Type) [Packable τ] (key : Pubkey) : Option (τ × Bytes) :=
  if (L key).owner = programId then split (L key).content else none

variable {L : Ledger} {k : Pubkey} {c : Content}

theorem held_ethereum {d : EthereumAccount} {rest : Bytes} :
    L.held EthereumAccount k = some (d, rest) ↔
      (L k).owner = programId ∧ (L k).content = .ethereum d rest := by
  unfold held
  split
  · cases h : (L k).content <;> simp_all [split]
  · simp_all

theorem held_storage {p : EthereumStorage} {rest : Bytes} :
    L.held EthereumStorage k = some (p, rest) ↔
      (L k).owner = programId ∧ (L k).content = .storage p rest := by
  unfold held
  split
  · cases h : (L k).content <;> simp_all [split]
  · simp_all

/-- One key holds one kind. -/
theorem held_storage_of_ethereum {e : EthereumAccount × Bytes}
    (h : L.held EthereumAccount k = some e) : L.held EthereumStorage k = none := by
  rw [held, if_pos (held_ethereum.1 h).1, (held_ethereum.1 h).2]
  rfl

theorem held_ethereum_of_storage {e : EthereumStorage × Bytes}
    (h : L.held EthereumStorage k = some e) : L.held EthereumAccount k = none := by
  rw [held, if_pos (held_storage.1 h).1, (held_storage.1 h).2]
  rfl

/-- The view after a write. -/
theorem held_setContent {τ : Type} [Packable τ] {other : Pubkey} :
    (L.setContent k c).held τ other =
      if other = k then if (L k).owner = programId then split c else none else L.held τ other := by
  rw [held, owner_setContent]
  by_cases h : other = k
  · rw [if_pos h, h, content_setContent_self]
  · rw [if_neg h, setContent_of_ne h]
    rfl

end

end Ledger

variable [Platform] [Runtime]

/-- The key of an Ethereum account. -/
def Address.key (a : Address) : Pubkey := (a.findSolanaAddress programId).1

/-- The key of a page of an Ethereum account. -/
def Address.pageKey (a : Address) (page : U256) : Pubkey := EthereumStorage.pubkey a.key page

namespace Ledger

/-- The account of an address. -/
def account (L : Ledger) (a : Address) : Option (EthereumAccount × Bytes) :=
  (L.held EthereumAccount a.key).filter fun e => e.1.address = a

/-- A page of an address. -/
def page (L : Ledger) (a : Address) (index : U256) : Option (EthereumStorage × Bytes) :=
  (L.held EthereumStorage (a.pageKey index)).filter fun p => p.1.address = a ∧ p.1.index = index

/-- The word at a slot of a page, for a contract of the generation. -/
def paged (generation : ℕ) (page : Option (EthereumStorage × Bytes)) (i : U256) : U256 :=
  match page with
  | none => 0
  | some (p, rest) => if p.generation = generation then EthereumStorage.get rest (subindexOf i) else 0

/-- **What the ledger holds at a slot.** -/
def slot (L : Ledger) (a : Address) (i : U256) : U256 :=
  match L.account a with
  | none => 0
  | some (d, rest) =>
    if i.toNat < STORAGE_ENTRIES_IN_CONTRACT_ACCOUNT then wordAt (d.statics rest) i.toNat
    else paged d.generation (L.page a (pageOf i)) i

/-- Every account of a contract and every page is where it belongs. -/
structure Sound (L : Ledger) : Prop where
  account : ∀ {k d rest}, L.held EthereumAccount k = some (d, rest) →
    k = d.address.key ∧ d.Fits rest
  page : ∀ {k p rest}, L.held EthereumStorage k = some (p, rest) →
    k = p.address.pageKey p.index ∧ IsRow rest ∧
      ∃ d r, L.account p.address = some (d, r) ∧ p.generation ≤ d.generation

variable {L : Ledger} {k : Pubkey} {a b : Address} {i j : U256}

theorem account_eq_some {e : EthereumAccount × Bytes} :
    L.account a = some e ↔ L.held EthereumAccount a.key = some e ∧ e.1.address = a := by
  rw [account, Option.filter_eq_some_iff, decide_eq_true_iff]

theorem page_eq_some {p : EthereumStorage × Bytes} :
    L.page a i = some p ↔
      L.held EthereumStorage (a.pageKey i) = some p ∧ p.1.address = a ∧ p.1.index = i := by
  rw [page, Option.filter_eq_some_iff, decide_eq_true_iff]

/-- **An account that is held** is the account of its address. -/
theorem Sound.account_of_held (hL : L.Sound) {d : EthereumAccount} {rest : Bytes}
    (h : L.held EthereumAccount k = some (d, rest)) : L.account d.address = some (d, rest) :=
  account_eq_some.2 ⟨(hL.account h).1 ▸ h, rfl⟩

/-- **A page that is held** is the page of its address and index. -/
theorem Sound.page_of_held (hL : L.Sound) {p : EthereumStorage} {rest : Bytes}
    (h : L.held EthereumStorage k = some (p, rest)) :
    L.page p.address p.index = some (p, rest) :=
  page_eq_some.2 ⟨(hL.page h).1 ▸ h, rfl, rfl⟩

/-- A slot is made of the account and one page. -/
theorem slot_congr {L' : Ledger} (haccount : L'.account a = L.account a)
    (hpage : L'.page a (pageOf i) = L.page a (pageOf i)) : L'.slot a i = L.slot a i := by
  rw [slot, slot, haccount, hpage]

theorem slot_of_account_eq_none (h : L.account a = none) : L.slot a i = 0 := by rw [slot, h]

theorem slot_eq {d : EthereumAccount} {rest : Bytes} (h : L.account a = some (d, rest)) :
    L.slot a i =
      if i.toNat < STORAGE_ENTRIES_IN_CONTRACT_ACCOUNT then wordAt (d.statics rest) i.toNat
      else paged d.generation (L.page a (pageOf i)) i := by
  rw [slot, h]

/-! ## Writing an account -/

section

variable {d : EthereumAccount} {rest : Bytes}

/-- **The accounts after an account was written.** -/
theorem account_setAccount (hk : k = d.address.key) (howner : (L k).owner = programId)
    (hold : ∀ e ∈ L.held EthereumAccount k, e.1.address = d.address) :
    (L.setContent k (.ethereum d rest)).account b =
      if b = d.address then some (d, rest) else L.account b := by
  refine Option.ext fun e => ?_
  rw [account_eq_some, held_setContent, if_pos howner]
  by_cases hb : b = d.address
  · rw [if_pos (hb ▸ hk.symm), if_pos hb]
    exact ⟨fun h => h.1, fun h => ⟨h, by rw [← Option.some.inj h]; exact hb.symm⟩⟩
  · rw [if_neg hb, account_eq_some]
    refine and_congr_left fun he => ?_
    split_ifs with hbk
    · refine ⟨fun h => (hb ?_).elim, fun h => (hb ?_).elim⟩
      · rw [← he, ← Option.some.inj h]
      · rw [← he, hold e (hbk ▸ h)]
    · rfl

/-- **The pages after an account was written.** -/
theorem page_setAccount (hpage : L.held EthereumStorage k = none) :
    (L.setContent k (.ethereum d rest)).page b j = L.page b j := by
  rw [page, page, held_setContent]
  split_ifs with hbk howner
  · rw [hbk, hpage]
    rfl
  · rw [hbk, hpage]
  · rfl

/-- **A ledger without data of ours** is sound. -/
theorem sound_of_raw (h : ∀ k, ∃ bytes, (L k).content = .raw bytes) : L.Sound := by
  have hheld : ∀ (τ : Type) [Packable τ], (∀ bytes, split (.raw bytes) = (none : Option (τ × Bytes))) →
      ∀ k, L.held τ k = none := by
    intro τ _ hsplit k
    obtain ⟨bytes, hbytes⟩ := h k
    rw [held, hbytes, hsplit, ite_self]
  refine ⟨fun {k d rest} hk => ?_, fun {k p rest} hk => ?_⟩
  · rw [hheld EthereumAccount fun _ => rfl] at hk
    cases hk
  · rw [hheld EthereumStorage fun _ => rfl] at hk
    cases hk

/-- **Writing an account** keeps the ledger sound. -/
theorem Sound.setAccount (hL : L.Sound) (hk : k = d.address.key) (howner : (L k).owner = programId)
    (hold : ∀ e ∈ L.held EthereumAccount k,
      e.1.address = d.address ∧ e.1.generation ≤ d.generation)
    (hfits : d.Fits rest) : (L.setContent k (.ethereum d rest)).Sound := by
  have haddress := fun e he => (hold e he).1
  constructor
  · intro k' d' rest' h
    rw [held_setContent] at h
    split_ifs at h with hk'
    · obtain ⟨rfl, rfl⟩ := Prod.mk.inj (Option.some.inj h)
      exact ⟨hk' ▸ hk, hfits⟩
    · exact hL.account h
  · intro k' p rest' h
    rw [held_setContent] at h
    split_ifs at h
    obtain ⟨hkey, hrow, d', r, hd', hle⟩ := hL.page h
    refine ⟨hkey, hrow, ?_⟩
    rw [account_setAccount hk howner haddress]
    by_cases hp : p.address = d.address
    · refine ⟨d, rest, if_pos hp, hle.trans (hold (d', r) ?_).2⟩
      rw [hk, ← hp]
      exact (account_eq_some.1 hd').1
    · exact ⟨d', r, by rw [if_neg hp]; exact hd', hle⟩

end

/-! ## Writing a page -/

section

variable {p : EthereumStorage} {rest : Bytes}

/-- **The accounts after a page was written.** -/
theorem account_setPage (haccount : L.held EthereumAccount k = none) :
    (L.setContent k (.storage p rest)).account b = L.account b := by
  rw [account, account, held_setContent]
  split_ifs with hbk howner
  · rw [hbk, haccount]
    rfl
  · rw [hbk, haccount]
  · rfl

/-- **The pages after a page was written.** -/
theorem page_setPage (hk : k = p.address.pageKey p.index) (howner : (L k).owner = programId)
    (hold : ∀ e ∈ L.held EthereumStorage k, e.1.address = p.address ∧ e.1.index = p.index) :
    (L.setContent k (.storage p rest)).page b j =
      if b = p.address ∧ j = p.index then some (p, rest) else L.page b j := by
  refine Option.ext fun e => ?_
  rw [page_eq_some, held_setContent, if_pos howner]
  by_cases hb : b = p.address ∧ j = p.index
  · rw [if_pos hb, if_pos (by rw [hb.1, hb.2, hk])]
    refine ⟨fun h => h.1, fun h => ⟨h, ?_⟩⟩
    rw [← Option.some.inj h]
    exact ⟨hb.1.symm, hb.2.symm⟩
  · rw [if_neg hb, page_eq_some]
    refine and_congr_left fun he => ?_
    split_ifs with hbk
    · refine ⟨fun h => (hb ?_).elim, fun h => (hb ?_).elim⟩
      · obtain rfl := Option.some.inj h
        exact ⟨he.1.symm, he.2.symm⟩
      · obtain ⟨h₁, h₂⟩ := hold e (hbk ▸ h)
        exact ⟨he.1.symm.trans h₁, he.2.symm.trans h₂⟩
    · rfl

/-- **Writing a page** keeps the ledger sound. -/
theorem Sound.setPage (hL : L.Sound) (hk : k = p.address.pageKey p.index)
    (haccount : L.held EthereumAccount k = none) (hrow : IsRow rest)
    (hd : ∃ d r, L.account p.address = some (d, r) ∧ p.generation ≤ d.generation) :
    (L.setContent k (.storage p rest)).Sound := by
  constructor
  · intro k' d' rest' h
    rw [held_setContent] at h
    split_ifs at h
    exact hL.account h
  · intro k' p' rest' h
    rw [held_setContent] at h
    rw [account_setPage haccount]
    split_ifs at h with hk'
    · obtain ⟨rfl, rfl⟩ := Prod.mk.inj (Option.some.inj h)
      exact ⟨hk' ▸ hk, hrow, hd⟩
    · exact hL.page h

end

end Ledger

end NeonEvm
