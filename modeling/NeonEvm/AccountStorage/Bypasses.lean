import NeonEvm.Account.Locks
import NeonEvm.AccountStorage.Coherent

/-!
# AccountStorage/Bypasses — what does not go through a journal

    Bypasses L L'     every page as it was
                    every account with the code, the slots and the generation that it had
                    an account that comes is new

Holders, states, locks, nonces, balances and new accounts bypass the storage of contracts: what is
written is a header, or an account that holds none of it.
-/

namespace NeonEvm

open Exec Packable

variable [Platform] [Runtime]

namespace Ledger

/-- What holds the storage of contracts stays, but for headers that it does not depend on. -/
structure Bypasses (L L' : Ledger) : Prop where
  account : ∀ {k d rest}, L.held EthereumAccount k = some (d, rest) →
    ∃ d', L'.held EthereumAccount k = some (d', rest) ∧ d'.address = d.address ∧
      d'.generation = d.generation ∧ d'.codeSize = d.codeSize
  born : ∀ {k d rest}, L.held EthereumAccount k = none →
    L'.held EthereumAccount k = some (d, rest) →
      k = d.address.key ∧ d.generation = 0 ∧ d.codeSize = 0 ∧ ∀ b ∈ rest, b = 0
  page : ∀ k, L'.held EthereumStorage k = L.held EthereumStorage k

/-- The runtime removes an account that was emptied: it had no lamports, and nothing was left in
it. -/
def Purges (L L' : Ledger) : Prop :=
  ∃ k, (L k).lamports = 0 ∧ (L k).content.IsBlank ∧
    L' = L.set k ⟨0, Platform.systemProgramId, .raw [], false, 0⟩

variable {L L' L'' : Ledger} {k : Pubkey}

/-- **The same views** hold the same storage. -/
theorem bypasses_of_held (haccount : ∀ k, L'.held EthereumAccount k = L.held EthereumAccount k)
    (hpage : ∀ k, L'.held EthereumStorage k = L.held EthereumStorage k) : L.Bypasses L' where
  account hd := ⟨_, (haccount _).trans hd, rfl, rfl, rfl⟩
  born hnone hd := by
    rw [haccount, hnone] at hd
    cases hd
  page := hpage

instance : Std.Refl Bypasses := ⟨fun _ => bypasses_of_held (fun _ => rfl) fun _ => rfl⟩

theorem Bypasses.trans (h : L.Bypasses L') (h' : L'.Bypasses L'') : L.Bypasses L'' where
  account hd := by
    obtain ⟨d', hd', haddress, hgeneration, hcode⟩ := h.account hd
    obtain ⟨d'', hd'', haddress', hgeneration', hcode'⟩ := h'.account hd'
    exact ⟨d'', hd'', haddress'.trans haddress, hgeneration'.trans hgeneration, hcode'.trans hcode⟩
  born {k d rest} hnone hd := by
    rcases hmid : L'.held EthereumAccount k with _ | ⟨d', rest'⟩
    · exact h'.born hmid hd
    · obtain ⟨hkey, hgeneration, hcode, hblank⟩ := h.born hnone hmid
      obtain ⟨d'', hd'', haddress', hgeneration', hcode'⟩ := h'.account hmid
      obtain ⟨rfl, rfl⟩ := Prod.mk.inj (Option.some.inj (hd''.symm.trans hd))
      exact ⟨haddress' ▸ hkey, hgeneration'.trans hgeneration, hcode'.trans hcode, hblank⟩
  page k := (h'.page k).trans (h.page k)

instance : IsTrans Ledger Bypasses := ⟨fun _ _ _ => Bypasses.trans⟩

/-- **An account after a sparing step** is what it was, or new. -/
theorem Bypasses.account_cases (h : L.Bypasses L') {a : Address} {d' : EthereumAccount} {rest : Bytes}
    (hd' : L'.account a = some (d', rest)) :
    (∃ d, L.account a = some (d, rest) ∧ d'.generation = d.generation ∧
      d'.codeSize = d.codeSize) ∨ L.account a = none ∧ d'.codeSize = 0 := by
  obtain ⟨hheld, haddress⟩ := account_eq_some.1 hd'
  rcases hd : L.held EthereumAccount a.key with _ | ⟨d, rest₀⟩
  · obtain ⟨-, -, hcode, -⟩ := h.born hd hheld
    exact .inr ⟨by rw [Ledger.account, hd]; rfl, hcode⟩
  · obtain ⟨d'', hheld', haddress', hgeneration, hcode⟩ := h.account hd
    obtain ⟨rfl, rfl⟩ := Prod.mk.inj (Option.some.inj (hheld'.symm.trans hheld))
    exact .inl ⟨d, account_eq_some.2 ⟨hd, haddress'.symm.trans haddress⟩, hgeneration, hcode⟩

/-- **No page belongs to an address without an account.** -/
theorem Sound.page_eq_none (hL : L.Sound) {a : Address} (ha : L.account a = none) (i : U256) :
    L.page a i = none := by
  rw [Option.eq_none_iff_forall_ne_some]
  rintro ⟨p, rest⟩ hp
  obtain ⟨hheld, rfl, -⟩ := page_eq_some.1 hp
  obtain ⟨-, -, d, r, hd, -⟩ := hL.page hheld
  rw [ha] at hd
  cases hd

/-- **What bypasses the storage keeps it.** -/
theorem Bypasses.keeps_storage (h : L.Bypasses L') : L.Keeps L' := by
  intro hL
  have haccount {a : Address} {e : EthereumAccount × Bytes} (he : L.account a = some e) :
      ∃ d', L'.account a = some (d', e.2) ∧ d'.generation = e.1.generation ∧
        d'.codeSize = e.1.codeSize := by
    obtain ⟨hheld, rfl⟩ := account_eq_some.1 he
    obtain ⟨d', hd', haddress, hgeneration, hcode⟩ := h.account hheld
    exact ⟨d', account_eq_some.2 ⟨hd', haddress⟩, hgeneration, hcode⟩
  have hpage (a : Address) (i : U256) : L'.page a i = L.page a i := by
    rw [Ledger.page, Ledger.page, h.page]
  refine ⟨⟨fun {k d' rest} hd' => ?_, fun {k p rest} hp => ?_⟩, fun a i => ?_, fun he => ?_,
    fun hp => ⟨_, (hpage _ _).trans hp, rfl⟩⟩
  · rcases hd : L.held EthereumAccount k with _ | ⟨d, rest₀⟩
    · obtain ⟨hkey, -, hcode, hblank⟩ := h.born hd hd'
      exact ⟨hkey, fun _ => hblank, fun hne => (hne hcode).elim⟩
    · obtain ⟨d'', hd'', haddress, -, hcode⟩ := h.account hd
      obtain ⟨rfl, rfl⟩ := Prod.mk.inj (Option.some.inj (hd''.symm.trans hd'))
      obtain ⟨hkey, hfits⟩ := hL.account hd
      exact ⟨haddress ▸ hkey, fun hzero => hfits.blank (hcode ▸ hzero), fun hne => by
        rw [hcode] at hne ⊢
        exact hfits.room hne⟩
  · rw [h.page] at hp
    obtain ⟨hkey, hrow, d, r, hd, hle⟩ := hL.page hp
    obtain ⟨d', hd', hgeneration, -⟩ := haccount hd
    exact ⟨hkey, hrow, d', r, hd', hle.trans hgeneration.ge⟩
  · rcases hd' : L'.account a with _ | ⟨d', rest⟩
    · rcases he : L.account a with _ | e
      · rw [slot_of_account_eq_none hd', slot_of_account_eq_none he]
      · obtain ⟨d', he', -⟩ := haccount he
        rw [hd'] at he'
        cases he'
    · rw [slot_eq hd', hpage]
      rcases h.account_cases hd' with ⟨d, hd, hgeneration, hcode⟩ | ⟨hnone, hcode⟩
      · rw [slot_eq hd, EthereumAccount.statics, EthereumAccount.statics, hcode, hgeneration]
      · rw [slot_of_account_eq_none hnone, EthereumAccount.statics_of_codeSize hcode, wordAt_nil,
          hL.page_eq_none hnone]
        exact ite_self _
  · obtain ⟨d', hd', hgeneration, -⟩ := haccount he
    exact ⟨_, hd', hgeneration⟩

/-! ## The steps -/

/-- **Other programs** bypass it. -/
theorem Foreign.bypasses (h : L.Foreign L') : L.Bypasses L' :=
  bypasses_of_held (h.held_eq fun _ => rfl) (h.held_eq fun _ => rfl)

/-- **A header is written.** -/
theorem bypasses_setAccount {d d' : EthereumAccount} {rest : Bytes}
    (hd : L.held EthereumAccount k = some (d, rest)) (haddress : d'.address = d.address)
    (hgeneration : d'.generation = d.generation) (hcode : d'.codeSize = d.codeSize) :
    L.Bypasses (L.setContent k (.ethereum d' rest)) where
  account {j e r} he := by
    rw [held_setContent]
    by_cases hj : j = k
    · rw [hj, hd] at he
      obtain ⟨rfl, rfl⟩ := Prod.mk.inj (Option.some.inj he)
      rw [if_pos hj, if_pos (held_ethereum.1 hd).1]
      exact ⟨d', rfl, haddress, hgeneration, hcode⟩
    · rw [if_neg hj]
      exact ⟨e, he, rfl, rfl, rfl⟩
  born {j e r} hnone he := by
    rw [held_setContent] at he
    split_ifs at he with hj
    · rw [hj, hd] at hnone
      cases hnone
    · rw [hnone] at he
      cases he
  page j := by
    rw [held_setContent]
    split_ifs with hj howner
    · rw [hj, held_storage_of_ethereum hd]
      rfl
    · rw [hj, held_storage_of_ethereum hd]
    · rfl

/-- **A new account.** -/
theorem bypasses_newAccount {a : Address} {bumpSeed : UInt8} {n : ℕ}
    (haccount : L.held EthereumAccount a.key = none)
    (hpage : L.held EthereumStorage a.key = none) :
    L.Bypasses (L.setContent a.key (.ethereum (.new a bumpSeed) (List.replicate n 0))) where
  account {j e r} he := by
    have hj : j ≠ a.key := by
      rintro rfl
      rw [haccount] at he
      cases he
    rw [held_setContent, if_neg hj]
    exact ⟨e, he, rfl, rfl, rfl⟩
  born {j e r} hnone he := by
    rw [held_setContent] at he
    split_ifs at he with hj
    · obtain ⟨rfl, rfl⟩ := Prod.mk.inj (Option.some.inj he)
      exact ⟨hj, rfl, rfl, fun _ => List.eq_of_mem_replicate⟩
    · rw [hnone] at he
      cases he
  page j := by
    rw [held_setContent]
    split_ifs with hj howner
    · rw [hj, hpage]
      rfl
    · rw [hj, hpage]
    · rfl

/-- **An account of another kind is written**, as an account of another kind. -/
theorem bypasses_setOther {c : Content} (haccount : L.held EthereumAccount k = none)
    (hpage : L.held EthereumStorage k = none)
    (hc : (split c : Option (EthereumAccount × Bytes)) = none)
    (hc' : (split c : Option (EthereumStorage × Bytes)) = none) :
    L.Bypasses (L.setContent k c) := by
  refine bypasses_of_held (fun j => ?_) fun j => ?_
  · rw [held_setContent]
    split_ifs with hj howner
    · rw [hc, hj, haccount]
    · rw [hj, haccount]
    · rfl
  · rw [held_setContent]
    split_ifs with hj howner
    · rw [hc', hj, hpage]
    · rw [hj, hpage]
    · rfl

/-- **Locks are turned.** -/
theorem bypasses_locking {b : Bool} {keys : List Pubkey} : L.Bypasses (L.locking b keys) where
  account {k d rest} hd := by
    rw [held_ethereum_locking, hd]
    refine ⟨_, rfl, ?_⟩
    dsimp only
    split_ifs <;> exact ⟨rfl, rfl, rfl⟩
  born hnone hd := by
    rw [held_ethereum_locking, hnone] at hd
    cases hd
  page _ := held_locking fun _ _ => rfl

/-- **An emptied account** held nothing. -/
theorem Purges.held_eq (hne : Platform.systemProgramId ≠ programId) {τ : Type} [Packable τ]
    (hraw : ∀ data, split (.raw data) = (none : Option (τ × Bytes))) (h : L.Purges L')
    (j : Pubkey) : L'.held τ j = L.held τ j := by
  obtain ⟨k, -, ⟨n, hcontent⟩, rfl⟩ := h
  by_cases hj : j = k
  · have hnone : L.held τ j = none := by
      rw [held, hj, hcontent, hraw]
      exact ite_self _
    rw [hnone, held, hj, set_self]
    exact if_neg hne
  · rw [held, held, set_of_ne hj]

theorem Purges.bypasses (hne : Platform.systemProgramId ≠ programId) (h : L.Purges L') :
    L.Bypasses L' :=
  bypasses_of_held (h.held_eq hne fun _ => rfl) (h.held_eq hne fun _ => rfl)

end Ledger

end NeonEvm
