import Mathlib.Algebra.Order.BigOperators.Group.Finset
import Mathlib.Data.FinEnum
import NeonEvm.AccountStorage.Journal

/-!
# AccountStorage/Funds — the NEON that the accounts hold

    purse k      the address and the balance of the Ethereum account under a key, if it is one
    balance a    what the purses of an address hold together
    supply       what all of them hold

`Spends n S S'`: the supply falls by `n`, and otherwise NEON only moves between purses whose keys
were supplied.  Every part of `applyStateChange` spends nothing, except for the withdrawals, so a
journal conserves NEON (`neon_conserved`).
-/

namespace NeonEvm

open Exec Packable

theorem Content.eq_storage_of_split {c : Content} {p : EthereumStorage} {rest : Bytes}
    (h : split c = some (p, rest)) : c = .storage p rest := by
  cases c with
  | storage d r =>
    obtain ⟨rfl, rfl⟩ := Prod.mk.inj (Option.some.inj h)
    rfl
  | _ => cases h

theorem Content.split_state_of_tag (c : Content) (h : c.tag = some TAG_EMPTY) :
    split c = (none : Option (State × Bytes)) := by
  cases c with
  | state d rest => exact absurd h (by simp [Content.tag, TAG, TAG_EMPTY])
  | _ => rfl

/-! ## Sums that differ in one place -/

theorem sum_add_of_eq_off {κ : Type} [Fintype κ] [DecidableEq κ] {f g : κ → ℕ} {k : κ}
    (h : ∀ j, j ≠ k → g j = f j) : ∑ j, g j + f k = ∑ j, f j + g k := by
  have hoff : ∑ j ∈ Finset.univ.erase k, g j = ∑ j ∈ Finset.univ.erase k, f j :=
    Finset.sum_congr rfl fun j hj => h j (Finset.ne_of_mem_erase hj)
  rw [← Finset.add_sum_erase _ g (Finset.mem_univ k), ← Finset.add_sum_erase _ f (Finset.mem_univ k),
    hoff, add_right_comm, add_comm (g k), add_right_comm]

theorem sum_add_of_eq_off_two {κ : Type} [Fintype κ] [DecidableEq κ] {f g : κ → ℕ} {k k' : κ}
    (hne : k ≠ k') (h : ∀ j, j ≠ k → j ≠ k' → g j = f j) :
    ∑ j, g j + (f k + f k') = ∑ j, f j + (g k + g k') := by
  have h₁ : ∑ j, Function.update f k (g k) j + f k = ∑ j, f j + g k := by
    rw [sum_add_of_eq_off fun j hj => Function.update_of_ne hj _ _, Function.update_self]
  have h₂ : ∑ j, g j + f k' = ∑ j, Function.update f k (g k) j + g k' := by
    rw [← Function.update_of_ne hne.symm (g k) f]
    refine sum_add_of_eq_off fun j hj => ?_
    by_cases hjk : j = k
    · rw [hjk, Function.update_self]
    · rw [Function.update_of_ne hjk, h j hjk hj]
  omega

theorem add_le_sum {κ : Type} [Fintype κ] [DecidableEq κ] (f : κ → ℕ) {j k : κ} (h : j ≠ k) :
    f j + f k ≤ ∑ i, f i := by
  rw [← Finset.add_sum_erase _ f (Finset.mem_univ j)]
  exact Nat.add_le_add_left
    (Finset.single_le_sum (fun _ _ => Nat.zero_le _) (Finset.mem_erase.2 ⟨h.symm, Finset.mem_univ k⟩)) _

/-! ## Purses -/

variable [Runtime]

namespace Ledger

/-- The Ethereum account under a key: its address and what it holds. -/
def purse (L : Ledger) (k : Pubkey) : Option (Address × ℕ) :=
  (L.held EthereumAccount k).map fun e => (e.1.address, e.1.balance.toNat)

/-- What a purse holds. -/
def worth : Option (Address × ℕ) → ℕ
  | none => 0
  | some (_, n) => n

/-- What a purse holds for an address. -/
def worthTo (a : Address) : Option (Address × ℕ) → ℕ
  | none => 0
  | some (b, n) => if b = a then n else 0

/-- **The balance of an address.** -/
def balance (L : Ledger) (a : Address) : ℕ := ∑ k, worthTo a (L.purse k)

/-- **All NEON in circulation.** -/
def supply (L : Ledger) : ℕ := ∑ k, worth (L.purse k)

variable {L L' : Ledger} {k : Pubkey} {a b : Address} {m n : ℕ}

theorem purse_of_held {d : EthereumAccount} {rest : Bytes}
    (h : L.held EthereumAccount k = some (d, rest)) :
    L.purse k = some (d.address, d.balance.toNat) := by
  rw [purse, h]
  rfl

theorem held_of_purse (h : L.purse k = some (a, n)) :
    ∃ d rest, L.held EthereumAccount k = some (d, rest) ∧ d.address = a ∧ d.balance.toNat = n := by
  obtain ⟨⟨d, rest⟩, hheld, hp⟩ := Option.map_eq_some_iff.1 h
  obtain ⟨rfl, rfl⟩ := Prod.mk.inj hp
  exact ⟨d, rest, hheld, rfl, rfl⟩

/-- The purses after a write. -/
theorem purse_setContent {c : Content} {other : Pubkey} :
    (L.setContent k c).purse other =
      if other = k then
        if (L k).owner = programId then
          (split c : Option (EthereumAccount × Bytes)).map fun e =>
            (e.1.address, e.1.balance.toNat)
        else none
      else L.purse other := by
  rw [purse, held_setContent]
  split_ifs <;> rfl

theorem supply_of_eq_off (h : ∀ j, j ≠ k → L'.purse j = L.purse j) :
    L'.supply + worth (L.purse k) =
      L.supply + worth (L'.purse k) :=
  sum_add_of_eq_off fun j hj => congrArg worth (h j hj)

/-- **Two purses** hold no more than there is. -/
theorem add_le_supply {j : Pubkey} (hne : j ≠ k) (hj : L.purse j = some (a, m))
    (hk : L.purse k = some (b, n)) : m + n ≤ L.supply := by
  have h : worth (L.purse j) + worth (L.purse k) ≤ L.supply :=
    add_le_sum (fun i => worth (L.purse i)) hne
  rwa [hj, hk] at h

/-! ## Payments -/

/-- `v` goes from a purse of `a` to another, of `b`. -/
structure Paid (a b : Address) (v : ℕ) (L L' : Ledger) : Prop where
  moved : ∃ k k' m n, k ≠ k' ∧ L.purse k = some (a, m + v) ∧ L'.purse k = some (a, m) ∧
    L.purse k' = some (b, n) ∧ L'.purse k' = some (b, n + v) ∧
    ∀ j, j ≠ k → j ≠ k' → L'.purse j = L.purse j

variable {v : ℕ}

/-- **A payment keeps the supply.** -/
theorem Paid.supply (h : Paid a b v L L') : L'.supply = L.supply := by
  obtain ⟨k, k', m, n, hne, hk, hk', hj, hj', hoff⟩ := h.moved
  have hsum : L'.supply + (worth (L.purse k) + worth (L.purse k')) =
      L.supply + (worth (L'.purse k) + worth (L'.purse k')) :=
    sum_add_of_eq_off_two hne fun i hi hi' => congrArg worth (hoff i hi hi')
  rw [hk, hk', hj, hj'] at hsum
  simp only [worth] at hsum
  omega

/-- **A payment** takes from the one what it gives to the other. -/
theorem Paid.balance (h : Paid a b v L L') (c : Address) :
    L'.balance c + (if a = c then v else 0) = L.balance c + (if b = c then v else 0) := by
  obtain ⟨k, k', m, n, hne, hk, hk', hj, hj', hoff⟩ := h.moved
  have hsum : L'.balance c + (worthTo c (L.purse k) + worthTo c (L.purse k')) =
      L.balance c + (worthTo c (L'.purse k) + worthTo c (L'.purse k')) :=
    sum_add_of_eq_off_two hne fun i hi hi' => congrArg (worthTo c) (hoff i hi hi')
  rw [hk, hk', hj, hj'] at hsum
  simp only [worthTo] at hsum
  split_ifs at hsum ⊢ <;> omega

/-- **Two headers** are written, the one with less and the other with more. -/
theorem paid_setContent {k k' : Pubkey} {d d' : EthereumAccount} {rest rest' : Bytes} {value : U256}
    (hne : k ≠ k') (hd : L.held EthereumAccount k = some (d, rest))
    (hd' : (L k').owner = programId) (hk' : L.purse k' = some (d'.address, d'.balance.toNat))
    (hvalue : value ≤ d.balance) (hsupply : L.supply < 2 ^ 256) :
    Paid d.address d'.address value.toNat L
      ((L.setContent k (.ethereum { d with balance := d.balance - value } rest)).setContent k'
        (.ethereum { d' with balance := d'.balance + value } rest')) := by
  have hk := purse_of_held hd
  have hle : value.toNat ≤ d.balance.toNat := hvalue
  have hsum := add_le_supply hne hk hk'
  refine ⟨k, k', (d.balance - value).toNat, d'.balance.toNat, hne, ?_, ?_, hk', ?_, fun j hj hj' => ?_⟩
  · rw [hk, BitVec.toNat_sub_of_le hvalue, Nat.sub_add_cancel hle]
  · rw [purse_setContent, if_neg hne, purse_setContent, if_pos rfl, if_pos (held_ethereum.1 hd).1]
    rfl
  · rw [purse_setContent, if_pos rfl, owner_setContent, if_pos hd']
    have hadd : (d'.balance + value).toNat = d'.balance.toNat + value.toNat := by
      rw [BitVec.toNat_add, Nat.mod_eq_of_lt (by omega)]
    exact congrArg (fun n => some (d'.address, n)) hadd
  · rw [purse_setContent, if_neg hj', purse_setContent, if_neg hj]

/-! ## Spending, on the ledger -/

/-- Purses and states stay where they are, and purses outside `K` as they are. -/
structure Stays (K : Pubkey → Prop) (L L' : Ledger) : Prop where
  purse : ∀ {k a m}, L.purse k = some (a, m) → ∃ m', L'.purse k = some (a, m')
  frame : ∀ {k}, ¬K k → L'.purse k = L.purse k
  state : ∀ {k d rest}, L.held State k = some (d, rest) → ∃ rest', L'.held State k = some (d, rest')

/-- The same, and the supply falls by `n`. -/
structure Spent (K : Pubkey → Prop) (n : ℕ) (L L' : Ledger) : Prop extends Stays K L L' where
  supply : L'.supply + n = L.supply

variable {K : Pubkey → Prop}

theorem Stays.trans {L'' : Ledger} (h : L.Stays K L') (h' : L'.Stays K L'') : L.Stays K L'' where
  purse hk := by
    obtain ⟨m', hm'⟩ := h.purse hk
    exact h'.purse hm'
  frame hk := (h'.frame hk).trans (h.frame hk)
  state hk := by
    obtain ⟨rest', hr'⟩ := h.state hk
    exact h'.state hr'

theorem Spent.trans {L'' : Ledger} (h : L.Spent K m L') (h' : L'.Spent K n L'') :
    L.Spent K (m + n) L'' := by
  have hm := h.supply
  have hn := h'.supply
  exact ⟨h.toStays.trans h'.toStays, by omega⟩

/-- **The same purses.** -/
theorem spent_of_purse_eq (h : ∀ k, L'.purse k = L.purse k)
    (hstate : ∀ {k d rest}, L.held State k = some (d, rest) →
      ∃ rest', L'.held State k = some (d, rest')) : L.Spent K 0 L' := by
  refine ⟨⟨fun {k a m} hk => ⟨m, (h k).trans hk⟩, fun _ => h _, hstate⟩, ?_⟩
  rw [supply, supply, Nat.add_zero]
  exact Finset.sum_congr rfl fun k _ => congrArg worth (h k)

/-- What other programs do. -/
theorem Foreign.spent (h : L.Foreign L') : L.Spent K 0 L' :=
  spent_of_purse_eq (fun k => by rw [Ledger.purse, Ledger.purse, h.held_eq fun _ => rfl])
    fun {k d rest} hk => ⟨rest, by rw [h.held_eq fun _ => rfl, hk]⟩

theorem held_state_of_ethereum {d : EthereumAccount} {rest : Bytes}
    (h : L.held EthereumAccount k = some (d, rest)) : L.held State k = none := by
  rw [held, if_pos (held_ethereum.1 h).1, (held_ethereum.1 h).2]
  rfl

theorem purse_setContent_of_ne {c : Content} {j : Pubkey} (hj : j ≠ k) :
    (L.setContent k c).purse j = L.purse j := by
  rw [purse_setContent, if_neg hj]

/-- **A write that is no state's**, under a supplied key. -/
theorem stays_setContent {c : Content} (hK : K k) (hstate : L.held State k = none)
    (hpurse : ∀ {a m}, L.purse k = some (a, m) → ∃ m', (L.setContent k c).purse k = some (a, m')) :
    L.Stays K (L.setContent k c) := by
  refine ⟨fun {j a m} hj => ?_, fun hj => purse_setContent_of_ne fun h => hj (h ▸ hK),
    fun {j d rest} hj => ?_⟩
  · by_cases hjk : j = k
    · rw [hjk] at hj ⊢
      exact hpurse hj
    · exact ⟨m, (purse_setContent_of_ne hjk).trans hj⟩
  · by_cases hjk : j = k
    · rw [hjk, hstate] at hj
      cases hj
    · rw [held_setContent, if_neg hjk]
      exact ⟨rest, hj⟩

theorem spent_of_stays {c : Content} (h : L.Stays K (L.setContent k c))
    (hworth : worth (L.purse k) = worth ((L.setContent k c).purse k) + n) :
    L.Spent K n (L.setContent k c) := by
  have hsum : (L.setContent k c).supply + worth (L.purse k) =
      L.supply + worth ((L.setContent k c).purse k) :=
    supply_of_eq_off fun j hj => purse_setContent_of_ne hj
  exact ⟨h, by omega⟩

theorem purse_setAccount {d d' : EthereumAccount} {rest rest' : Bytes}
    (hd : L.held EthereumAccount k = some (d, rest)) :
    (L.setContent k (.ethereum d' rest')).purse k = some (d'.address, d'.balance.toNat) := by
  rw [purse_setContent, if_pos rfl, if_pos (held_ethereum.1 hd).1]
  rfl

/-- **A new header** for an account, of the same address. -/
theorem stays_setAccount {d d' : EthereumAccount} {rest rest' : Bytes} (hK : K k)
    (hd : L.held EthereumAccount k = some (d, rest)) (haddress : d'.address = d.address) :
    L.Stays K (L.setContent k (.ethereum d' rest')) := by
  refine stays_setContent hK (held_state_of_ethereum hd) fun {a m} hk => ?_
  rw [purse_of_held hd] at hk
  obtain ⟨rfl, -⟩ := Prod.mk.inj (Option.some.inj hk)
  exact ⟨_, haddress ▸ purse_setAccount hd⟩

theorem spent_setAccount {d d' : EthereumAccount} {rest rest' : Bytes} (hK : K k)
    (hd : L.held EthereumAccount k = some (d, rest)) (haddress : d'.address = d.address)
    (hbalance : d.balance.toNat = d'.balance.toNat + n) :
    L.Spent K n (L.setContent k (.ethereum d' rest')) := by
  refine spent_of_stays (stays_setAccount hK hd haddress) ?_
  rw [purse_of_held hd, purse_setAccount hd]
  exact hbalance

/-- **A page**, or anything else that holds nothing, in the place of what held nothing. -/
theorem spent_setOther {c : Content} (hK : K k) (hpurse : L.purse k = none)
    (hstate : L.held State k = none) (hc : worth ((L.setContent k c).purse k) = 0) :
    L.Spent K 0 (L.setContent k c) := by
  refine spent_of_stays (stays_setContent hK hstate fun {a m} hk => ?_) ?_
  · rw [hpurse] at hk
    cases hk
  · rw [hpurse, hc]
    rfl

end Ledger

/-! ## What a journal takes -/

/-- What an action takes out of circulation. -/
def Action.withdrawn : Action → ℕ
  | neonWithdraw _ value => value.toNat
  | _ => 0

/-- What a journal takes out of circulation. -/
def withdrawnBy (actions : List Action) : ℕ := (actions.map Action.withdrawn).sum

omit [Runtime] in
theorem withdrawnBy_concat (actions : List Action) (x : Action) :
    withdrawnBy (actions ++ [x]) = withdrawnBy actions + x.withdrawn := by
  rw [withdrawnBy, List.map_append, List.sum_append, List.map_singleton, List.sum_singleton,
    ← withdrawnBy]

omit [Runtime] in
/-- **Rearranging** drops no withdrawal. -/
theorem withdrawnBy_rearrange (actions : List Action) :
    withdrawnBy (rearrangeActions actions) = withdrawnBy actions := by
  have hfilter : ∀ (D : List Address) (actions : List Action),
      withdrawnBy (actions.filter (Action.stays D)) +
        withdrawnBy (actions.filter (·.destroyed.isSome)) = withdrawnBy actions := by
    intro D actions
    induction actions with
    | nil => rfl
    | cons x actions ih =>
      have hsum : withdrawnBy (x :: actions) = x.withdrawn + withdrawnBy actions := List.sum_cons
      rw [hsum, ← ih, List.filter_cons, List.filter_cons]
      have hcons : ∀ (b : Bool) (xs : List Action),
          withdrawnBy (if b = true then x :: xs else xs) =
            (if b = true then x.withdrawn else 0) + withdrawnBy xs := by
        rintro (_ | _) xs
        · exact (Nat.zero_add _).symm
        · rfl
      have hx : (if Action.stays D x = true then x.withdrawn else 0) +
          (if x.destroyed.isSome = true then x.withdrawn else 0) = x.withdrawn := by
        cases x <;> simp [Action.withdrawn, Action.stays, Action.destroyed]
      rw [hcons, hcons]
      omega
  rw [← hfilter (actions.filterMap Action.destroyed) actions, rearrangeActions, withdrawnBy,
    List.map_append, List.sum_append]
  rfl

namespace ProgramAccountStorage

/-! ## Spending, by an instruction -/

/-- Every handle of an account is filed under the address of its purse, and every account that was
supplied under its key. -/
structure Filed (S : ProgramAccountStorage) : Prop where
  purse : ∀ {a k}, S.ethereumAccounts.lookup a = some k → ∃ n, S.ledger.purse k = some (a, n)
  named : S.Named

/-- The supply has fallen by `n`; accounts that were not supplied are as they were. -/
structure Spent (n : ℕ) (S S' : ProgramAccountStorage) : Prop where
  ledger : S.ledger.Spent (· ∈ S.solanaAccounts) n S'.ledger
  filed : S'.Filed
  supplied : S'.solanaAccounts = S.solanaAccounts
  grows : ∀ {a}, a ∈ S.ethereumAccounts → a ∈ S'.ethereumAccounts

/-- A step that spends `n`, as long as the supply is a word. -/
def Spends (n : ℕ) (S S' : ProgramAccountStorage) : Prop :=
  S.Filed → S.ledger.supply < 2 ^ 256 → S.Spent n S'

variable {S S' : ProgramAccountStorage} {a : Address} {k : Pubkey} {m n : ℕ} {u : Unit}

theorem Spent.trans {S'' : ProgramAccountStorage} (h : S.Spent m S') (h' : S'.Spent n S'') :
    S.Spent (m + n) S'' where
  ledger := h.ledger.trans (h.supplied ▸ h'.ledger)
  filed := h'.filed
  supplied := h'.supplied.trans h.supplied
  grows ha := h'.grows (h.grows ha)

theorem Spends.trans {S'' : ProgramAccountStorage} (h : Spends m S S') (h' : Spends n S' S'') :
    Spends (m + n) S S'' := fun hS hsupply => by
  have hm := h hS hsupply
  exact hm.trans (h' hm.filed (by have := hm.ledger.supply; omega))

instance : Std.Refl (Spends 0) :=
  ⟨fun _ hS _ => ⟨Ledger.spent_of_purse_eq (fun _ => rfl) fun h => ⟨_, h⟩, hS, rfl, fun h => h⟩⟩

instance : IsTrans ProgramAccountStorage (Spends 0) := ⟨fun _ _ _ h h' => h.trans h'⟩

/-- **A step of the ledger** under the supplied keys. -/
theorem spends_of_ledger {L : Ledger}
    (h : S.Filed → S.ledger.supply < 2 ^ 256 → S.ledger.Spent (· ∈ S.solanaAccounts) n L) :
    Spends n S { S with ledger := L } := fun hS hsupply => by
  refine ⟨h hS hsupply, ⟨fun {a k} hk => ?_, hS.named⟩, rfl, fun h => h⟩
  obtain ⟨m, hm⟩ := hS.purse hk
  exact (h hS hsupply).purse hm

theorem returns_spends_onLedger {α : Type} {x : Program α}
    (h : ∀ L b L', x L = .ok b L' → L.Foreign L') : Returns (Spends 0) (onLedger x) := by
  intro S b S' hx
  obtain ⟨L, hL, rfl⟩ := zoom_eq_ok.1 hx
  exact spends_of_ledger fun _ _ => (h _ _ _ hL).spent

/-! ## Handles -/

theorem Filed.bind_handle (hS : S.Filed) {h : Handle EthereumAccount}
    (hh : (S.ethereumAccounts.lookup a).bind (S.ledger.handle? EthereumAccount) = some h) :
    S.ethereumAccounts.lookup a = some h.key ∧
      S.ledger.held EthereumAccount h.key = some (h.data, h.rest) ∧ h.data.address = a := by
  obtain ⟨k, hk, hhandle⟩ := Option.bind_eq_some_iff.1 hh
  obtain ⟨n, hn⟩ := hS.purse hk
  obtain ⟨d, rest, hheld, hda, -⟩ := Ledger.held_of_purse hn
  rw [Ledger.handle?, (Ledger.held_ethereum.1 hheld).2] at hhandle
  obtain rfl := Option.some.inj hhandle
  exact ⟨hk, hheld, hda⟩

theorem Filed.ethereumAccountMut_ok (hS : S.Filed) {h : Handle EthereumAccount}
    (hh : ethereumAccountMut a S = .ok h S') :
    S = S' ∧ S.ethereumAccounts.lookup a = some h.key ∧
      S.ledger.held EthereumAccount h.key = some (h.data, h.rest) ∧ h.data.address = a := by
  simp only [ethereumAccountMut, bind_eq_ok, get_eq_ok, ofOption_eq_ok] at hh
  obtain ⟨_, _, ⟨rfl, rfl⟩, hbind, rfl⟩ := hh
  exact ⟨rfl, hS.bind_handle hbind⟩

omit [Runtime] in
/-- A handle is saved under a key that was supplied. -/
theorem save_supplied {τ : Type} [Packable τ] {h : Handle τ} (hh : save h S = .ok u S') :
    h.key ∈ S.solanaAccounts := by
  simp only [save, bind_eq_ok, get_eq_ok, ofOption_eq_ok] at hh
  obtain ⟨_, _, ⟨rfl, rfl⟩, _, _, ⟨hinfo, rfl⟩, -⟩ := hh
  exact AList.lookup_isSome.1 (hinfo ▸ rfl)

/-- **Changing a header**, exactly. -/
theorem Filed.modifyAccount_ok (hS : S.Filed) {f : EthereumAccount → EthereumAccount}
    (h : modifyAccount a f S = .ok u S') :
    ∃ k d rest, S.ethereumAccounts.lookup a = some k ∧ k ∈ S.solanaAccounts ∧
      S.ledger.held EthereumAccount k = some (d, rest) ∧ d.address = a ∧
      S' = { S with ledger := S.ledger.setContent k (.ethereum (f d) rest) } := by
  obtain ⟨account, _, haccount, hsave⟩ := bind_eq_ok.1 h
  obtain ⟨rfl, hk, hheld, hda⟩ := hS.ethereumAccountMut_ok haccount
  have hsupplied : account.key ∈ S.solanaAccounts :=
    save_supplied (h := { account with data := f account.data }) hsave
  exact ⟨account.key, account.data, account.rest, hk, hsupplied, hheld, hda, save_ok hsave⟩

/-- **A header that keeps its address and its balance.** -/
theorem returns_spends_modifyAccount {f : EthereumAccount → EthereumAccount}
    (haddress : ∀ d, (f d).address = d.address) (hbalance : ∀ d, (f d).balance = d.balance)
    (a : Address) : Returns (Spends 0) (modifyAccount a f) := by
  intro S u S' h hS
  obtain ⟨k, d, rest, -, hk, hheld, -, rfl⟩ := hS.modifyAccount_ok h
  refine spends_of_ledger (fun _ _ => Ledger.spent_setAccount hk hheld (haddress d) ?_) hS
  rw [hbalance, Nat.add_zero]

/-! ## Single steps -/

/-- **A page** is saved. -/
theorem spends_savePage {page : Handle EthereumStorage}
    (hpage : S.ledger.handle? EthereumStorage page.key = some page) {rest : Bytes}
    (h : save { page with rest } S = .ok u S') : Spends 0 S S' := by
  have hk : page.key ∈ S.solanaAccounts := save_supplied (h := { page with rest }) h
  obtain ⟨⟨p, r⟩, hsplit, -⟩ := Option.map_eq_some_iff.1 hpage
  have hcontent := Content.eq_storage_of_split hsplit
  obtain rfl := save_ok h
  refine spends_of_ledger fun _ _ => Ledger.spent_setOther hk ?_ ?_ ?_
  · rw [Ledger.purse, Ledger.held, hcontent]
    split_ifs <;> rfl
  · rw [Ledger.held, hcontent]
    split_ifs <;> rfl
  · rw [Ledger.purse_setContent, if_pos rfl]
    split_ifs <;> rfl

variable [Platform]

/-- **A new account** holds nothing. -/
theorem spent_initAccount {τ : Type} [Packable τ] {info : AccountMeta} {d : τ} {L L' : Ledger}
    {K : Pubkey → Prop} (hK : K info.pubkey) (h : initAccount info d L = .ok u L')
    (hd : ∀ rest, ((split (content d rest) : Option (EthereumAccount × Bytes)).map fun e =>
      e.1.balance.toNat).getD 0 = 0) : L.Spent K 0 L' := by
  obtain ⟨howner, htag, rfl⟩ := initAccount_ok h
  refine Ledger.spent_setOther hK ?_ (held_eq_none_of_tag htag Content.split_state_of_tag) ?_
  · rw [Ledger.purse, held_eq_none_of_tag htag Content.split_ethereum_of_tag]
    rfl
  · rw [Ledger.purse_setContent, if_pos rfl, if_pos howner]
    have hd := hd (List.replicate ((L info.pubkey).content.len - SIZE τ) 0)
    rcases hs : (split (content d (List.replicate ((L info.pubkey).content.len - SIZE τ) 0)) :
      Option (EthereumAccount × Bytes)) with _ | e
    · rfl
    · rw [hs] at hd
      exact hd

/-- The balance that an instruction reads is what the handle holds. -/
theorem balance_ok {v : U256} {k : Pubkey} {d : EthereumAccount} {rest : Bytes}
    (hk : S.ethereumAccounts.lookup a = some k) (hheld : S.ledger.held EthereumAccount k = some (d, rest))
    (h : S.balance a = some v) : d.balance = v := by
  have hhandle : S.ledger.handle? EthereumAccount k = some ⟨k, d, rest⟩ := by
    rw [Ledger.handle?, (Ledger.held_ethereum.1 hheld).2]
    rfl
  rw [balance, mapAccount, ethereumAccount, hk] at h
  simpa [hhandle] using h

/-- **A transfer**, between accounts that are loaded. -/
theorem Filed.transferNeonTokens_ok (hS : S.Filed) (hsupply : S.ledger.supply < 2 ^ 256)
    {source target : Address} {value : U256} (hne : source ≠ target)
    (h : transferNeonTokens source target value S = .ok u S') :
    S.ledger.Paid source target value.toNat S'.ledger ∧ S.Spent 0 S' := by
  unfold transferNeonTokens at h
  rw [if_neg hne] at h
  simp only [bind_eq_ok, get_eq_ok, failIf_eq_ok, ofOption_eq_ok] at h
  obtain ⟨_, _, ⟨rfl, rfl⟩, _, _, ⟨-, rfl⟩, _, _, ⟨-, rfl⟩, balance, _, ⟨hbalance, rfl⟩, _, _,
    ⟨hfunds, rfl⟩, _, S₁, hsource, htarget⟩ := h
  obtain ⟨k, d, rest, hk, hks, hd, rfl, rfl⟩ := hS.modifyAccount_ok hsource
  have hvalue : value ≤ d.balance := by
    rw [balance_ok hk hd hbalance]
    exact BitVec.not_lt.1 (of_decide_eq_false hfunds)
  have hpays : S.ledger.Spent (· ∈ S.solanaAccounts) value.toNat
      (S.ledger.setContent k (.ethereum { d with balance := d.balance - value } rest)) :=
    Ledger.spent_setAccount hks hd rfl
      (by rw [BitVec.toNat_sub_of_le hvalue, Nat.sub_add_cancel hvalue])
  have hspent := spends_of_ledger (S := S) (n := value.toNat) (fun _ _ => hpays) hS hsupply
  obtain ⟨k', d', rest', hk', hks', hd', rfl, rfl⟩ := hspent.filed.modifyAccount_ok htarget
  have hkk : k ≠ k' := by
    rintro rfl
    obtain ⟨n, hn⟩ := hS.purse hk'
    rw [Ledger.purse_of_held hd] at hn
    exact hne (Prod.mk.inj (Option.some.inj hn)).1
  have hd₁ := hd'
  rw [Ledger.held_setContent, if_neg hkk.symm] at hd'
  have hpaid : S.ledger.Paid d.address d'.address value.toNat
      ((S.ledger.setContent k (.ethereum { d with balance := d.balance - value } rest)).setContent k'
        (.ethereum { d' with balance := d'.balance + value } rest')) :=
    Ledger.paid_setContent hkk hd (Ledger.held_ethereum.1 hd').1 (Ledger.purse_of_held hd') hvalue hsupply
  refine ⟨hpaid, spends_of_ledger (S := S) (fun _ _ => ?_) hS hsupply⟩
  have hstays : S.ledger.Stays (· ∈ S.solanaAccounts)
      (S.ledger.setContent k (.ethereum { d with balance := d.balance - value } rest)) :=
    Ledger.stays_setAccount hks hd rfl
  refine ⟨hstays.trans (Ledger.stays_setAccount hks' hd₁ rfl), ?_⟩
  rw [Nat.add_zero, hpaid.supply]

/-- **A transfer** moves NEON from one purse to another. -/
theorem returns_spends_transferNeonTokens (source target : Address) (value : U256) :
    Returns (Spends 0) (transferNeonTokens source target value) := by
  intro S u S' h hS hsupply
  by_cases hne : source = target
  · unfold transferNeonTokens at h
    rw [if_pos hne] at h
    obtain ⟨-, rfl⟩ := pure_eq_ok.1 h
    exact refl_of (Spends 0) S hS hsupply
  · exact (hS.transferNeonTokens_ok hsupply hne h).2

/-! ## Actions -/

omit [Platform] in
theorem returns_spends_ethereumAccountMut (address : Address) :
    Returns (Spends 0) (ethereumAccountMut address) :=
  returns_bind moves_get.returns fun _ => (moves_ofOption _ _).returns

omit [Platform] in
theorem returns_spends_incrementNonce (address : Address) :
    Returns (Spends 0) (incrementNonce address) := by
  refine returns_bind (returns_spends_ethereumAccountMut _) fun _ => ?_
  refine returns_bind (moves_failIf _ _).returns fun _ => ?_
  refine returns_spends_modifyAccount ?_ ?_ _ <;> exact fun _ => rfl

theorem returns_spends_invokeExternal [Runtime.Lawful] {instruction : Instruction}
    {seeds : List Bytes} (h : instruction.programId ≠ programId) :
    Returns (Spends 0) (invokeExternal instruction seeds) := by
  refine returns_bind moves_get.returns fun _ => ?_
  refine returns_bind (moves_assertThat _ _).returns fun _ => ?_
  refine returns_bind (moves_assertThat _ _).returns fun _ => ?_
  exact returns_spends_onLedger (returns_invokeSigned (i := .external instruction) _ h)

omit [Platform] in
/-- **A withdrawal** takes its value out of circulation. -/
theorem withdraw_spends {source : Address} {value : U256} (h : withdraw source value S = .ok u S') :
    Spends value.toNat S S' := fun hS hsupply => by
  obtain ⟨account, _, haccount, h⟩ := bind_eq_ok.1 h
  obtain ⟨rfl, hk, hheld, -⟩ := hS.ethereumAccountMut_ok haccount
  obtain ⟨_, _, hfail, h⟩ := bind_eq_ok.1 h
  obtain ⟨hfunds, rfl⟩ := failIf_eq_ok.1 hfail
  obtain ⟨k, d, rest, hk', hks, hd, -, rfl⟩ := hS.modifyAccount_ok h
  obtain rfl := Option.some.inj (hk.symm.trans hk')
  obtain ⟨rfl, rfl⟩ := Prod.mk.inj (Option.some.inj (hheld.symm.trans hd))
  have hvalue : value ≤ account.data.balance := BitVec.not_lt.1 (of_decide_eq_false hfunds)
  refine spends_of_ledger (fun _ _ => Ledger.spent_setAccount hks hd rfl ?_) hS hsupply
  rw [BitVec.toNat_sub_of_le hvalue, Nat.sub_add_cancel hvalue]

omit [Platform] in
/-- **A handle is saved** with its balance. -/
theorem Filed.spends_save (hS : S.Filed) {account : Handle EthereumAccount}
    (hh : (S.ethereumAccounts.lookup a).bind (S.ledger.handle? EthereumAccount) = some account)
    {d : EthereumAccount} {rest : Bytes} (h : save ⟨account.key, d, rest⟩ S = .ok u S')
    (haddress : d.address = account.data.address) (hbalance : d.balance = account.data.balance) :
    Spends 0 S S' := by
  obtain ⟨-, hheld, -⟩ := hS.bind_handle hh
  have hk : account.key ∈ S.solanaAccounts := save_supplied (h := ⟨account.key, d, rest⟩) h
  obtain rfl := save_ok h
  refine spends_of_ledger fun _ _ => Ledger.spent_setAccount hk hheld haddress ?_
  rw [hbalance, Nat.add_zero]

omit [Platform] in
theorem returns_spends_deployContract (address : Address) (code : Bytes) :
    Returns (Spends 0) (deployContract address code) := by
  intro S u S' h hS
  obtain ⟨_, _, hget, h⟩ := bind_eq_ok.1 h
  obtain ⟨rfl, rfl⟩ := get_eq_ok.1 hget
  rcases haccount : (S.ethereumAccounts.lookup address).bind
    (S.ledger.handle? EthereumAccount) with _ | account
  · simp only [haccount] at h
    exact (fail_eq_ok.1 h).elim
  · simp only [haccount, bind_eq_ok, assertThat_eq_ok] at h
    obtain ⟨_, _, ⟨-, rfl⟩, _, _, ⟨-, rfl⟩, _, _, ⟨-, rfl⟩, hsave⟩ := h
    exact hS.spends_save haccount hsave rfl rfl hS

omit [Platform] in
theorem returns_spends_deleteAccount (address : Address) :
    Returns (Spends 0) (deleteAccount address) := by
  intro S u S' h hS
  simp only [deleteAccount, ethereumAccountMut, bind_eq_ok, get_eq_ok, ofOption_eq_ok,
    failIf_eq_ok] at h
  obtain ⟨account, _, ⟨_, _, ⟨rfl, rfl⟩, haccount, rfl⟩, _, _, ⟨-, rfl⟩, hsave⟩ := h
  exact hS.spends_save haccount hsave rfl rfl hS

/-! ## Slots, sizes and creations -/

/-- **A new Ethereum account** gets a purse, with nothing in it. -/
theorem returns_spends_createAccountIfNotExists (a : Address) :
    Returns (Spends 0) (createAccountIfNotExists a) := by
  intro S u S' h hS hsupply
  obtain ⟨_, _, hget, h⟩ := bind_eq_ok.1 h
  obtain ⟨rfl, rfl⟩ := get_eq_ok.1 hget
  split_ifs at h with ha
  · obtain ⟨-, rfl⟩ := pure_eq_ok.1 h
    exact refl_of (Spends 0) S hS hsupply
  · rcases hs : S.solanaAccounts.lookup (a.findSolanaAddress programId).1 with _ | info
    · simp only [hs] at h
      exact (fail_eq_ok.1 h).elim
    · simp only [hs] at h
      obtain ⟨_, S₁, hinit, hmodify⟩ := bind_eq_ok.1 h
      obtain ⟨L, hL, rfl⟩ := zoom_eq_ok.1 hinit
      obtain rfl := modify_eq_ok.1 hmodify
      have hinfo : info.pubkey = a.key := hS.named hs
      have hk : info.pubkey ∈ S.solanaAccounts := by
        rw [hinfo]
        exact AList.lookup_isSome.1 (hs ▸ rfl)
      have hspent := spends_of_ledger (S := S) (fun _ _ => spent_initAccount hk hL fun _ => rfl)
        hS hsupply
      refine ⟨hspent.ledger, ⟨fun {b k} hb => ?_, hS.named⟩, rfl, fun {b} hb => ?_⟩
      · by_cases hba : b = a
        · rw [hba, AList.lookup_insert, Option.some.injEq] at hb
          obtain ⟨howner, -, rfl⟩ := initAccount_ok hL
          refine ⟨0, ?_⟩
          rw [hba, ← hb, ← Address.key, ← hinfo, Ledger.purse_setContent, if_pos rfl, if_pos howner]
          rfl
        · rw [AList.lookup_insert_ne hba] at hb
          exact hspent.filed.purse hb
      · exact (AList.mem_insert _).2 (.inr hb)

omit [Platform] in
theorem spent_realloc {L : Ledger} {K : Pubkey → Prop} (len : ℕ) :
    L.Spent K 0 (L.setContent k ((L k).content.realloc len)) := by
  refine Ledger.spent_of_purse_eq (fun j => ?_) fun {j d rest} hj => ?_
  · by_cases hjk : j = k
    · rw [hjk, Ledger.purse_setContent, if_pos rfl, Ledger.purse, Ledger.held]
      rcases (L k).content with _ | _ | _ | _ | _ | _ <;> split_ifs <;> rfl
    · rw [Ledger.purse_setContent_of_ne hjk]
  · rw [Ledger.held_setContent]
    split_ifs with hjk howner
    · rw [hjk, Ledger.held, if_pos howner] at hj
      rcases hc : (L k).content with _ | _ | _ | _ | ⟨e, r⟩ | _ <;> rw [hc] at hj <;> cases hj
      exact ⟨_, rfl⟩
    · rw [hjk, Ledger.held, if_neg howner] at hj
      cases hj
    · exact ⟨rest, hj⟩

/-- **Resizing** moves nothing. -/
theorem returns_spends_processOperation [Runtime.Lawful] (operator : Pubkey)
    (readiness : AccountsReadiness) (operation : Address × AccountOperation) :
    Returns (Spends 0) (processOperation operator readiness operation) := by
  intro S readiness' S' h
  obtain ⟨a, operation⟩ := operation
  obtain ⟨_, _, hget, h⟩ := bind_eq_ok.1 h
  obtain ⟨rfl, rfl⟩ := get_eq_ok.1 hget
  split_ifs at h
  · rcases operation with space | ⟨source, target⟩
    · obtain ⟨_, S₁, hcreate, hpure⟩ := bind_eq_ok.1 h
      obtain ⟨-, rfl⟩ := pure_eq_ok.1 hpure
      refine returns_spends_onLedger (fun L b L' hL => ?_) _ _ _ hcreate
      obtain ⟨_, _, hfail, hcreate⟩ := bind_eq_ok.1 hL
      obtain ⟨-, rfl⟩ := failIf_eq_ok.1 hfail
      exact returns_createPdaAccount _ _ _ _ _ _ _ _ hcreate
    · obtain ⟨_, S₁, hresize, hpure⟩ := bind_eq_ok.1 h
      obtain ⟨-, rfl⟩ := pure_eq_ok.1 hpure
      obtain ⟨L, hL, rfl⟩ := zoom_eq_ok.1 hresize
      obtain ⟨L₁, hforeign, howner, rfl⟩ := resizeAccount_ok hL
      exact spends_of_ledger fun _ _ => hforeign.spent.trans (spent_realloc _)
  · exact (fail_eq_ok.1 h).elim

section

variable [Runtime.Lawful] {operator : Pubkey} {transfers transfers' : Transfers}

omit [Runtime.Lawful] in
theorem setStorage_spends {page : Handle EthereumStorage} {subindex : UInt8} {value : U256}
    (hpage : S.ledger.handle? EthereumStorage page.key = some page)
    (h : setStorage page transfers subindex value S = .ok transfers' S') : Spends 0 S S' := by
  obtain ⟨_, S₁, hsave, h⟩ := bind_eq_ok.1 h
  have hsaved := spends_savePage hpage hsave
  split_ifs at h
  · obtain ⟨-, rfl⟩ := pure_eq_ok.1 h
    exact hsaved
  · simp only [bind_eq_ok, get_eq_ok, pure_eq_ok] at h
    obtain ⟨_, S₂, hminimum, _, _, ⟨rfl, rfl⟩, -, rfl⟩ := h
    exact hsaved.trans (returns_spends_onLedger (returns_minimumBalance _) _ _ _ hminimum)

/-- **A new page** is no purse. -/
theorem createStorage_spends {contract : Handle EthereumAccount} {info : AccountMeta} {index v : U256}
    {subindex : UInt8} (hk : info.pubkey ∈ S.solanaAccounts)
    (h : onLedger (createStorage operator contract info index subindex v) S = .ok u S') :
    Spends 0 S S' := by
  obtain ⟨L, hL, rfl⟩ := zoom_eq_ok.1 h
  obtain ⟨L₁, hforeign, howner, htag, rfl⟩ := createStorage_ok hL
  refine spends_of_ledger fun _ _ => hforeign.spent.trans (Ledger.spent_setOther hk ?_ ?_ ?_)
  · rw [Ledger.purse, held_eq_none_of_tag htag Content.split_ethereum_of_tag]
    rfl
  · exact held_eq_none_of_tag htag Content.split_state_of_tag
  · rw [Ledger.purse_setContent, if_pos rfl, if_pos howner]
    rfl

theorem applyPaged_spends {contract : Handle EthereumAccount} {index v : U256}
    (h : applyPaged operator contract transfers index v S = .ok transfers' S') :
    Spends 0 S S' := fun hS hsupply => by
  obtain ⟨_, _, hget, h⟩ := bind_eq_ok.1 h
  obtain ⟨rfl, rfl⟩ := get_eq_ok.1 hget
  rcases hk : S.storageAccounts.lookup (contract.data.address, pageOf index) with _ | key
  · simp only [hk] at h
    rcases hs : S.solanaAccounts.lookup (EthereumStorage.pubkey contract.key (pageOf index)) with
      _ | info
    · simp only [hs] at h
      exact (fail_eq_ok.1 h).elim
    · simp only [hs] at h
      obtain ⟨_, _, hfail, h⟩ := bind_eq_ok.1 h
      obtain ⟨-, rfl⟩ := failIf_eq_ok.1 hfail
      split_ifs at h with hv
      · exact (pure_eq_ok.1 h).2 ▸ refl_of (Spends 0) S hS hsupply
      · obtain ⟨_, S₁, hcreate, h⟩ := bind_eq_ok.1 h
        obtain ⟨_, S₂, hmodify, h⟩ := bind_eq_ok.1 h
        obtain ⟨-, rfl⟩ := pure_eq_ok.1 h
        obtain rfl := modify_eq_ok.1 hmodify
        have hinfo : info.pubkey ∈ S.solanaAccounts := by
          rw [hS.named hs]
          exact AList.lookup_isSome.1 (hs ▸ rfl)
        have hspent := createStorage_spends hinfo hcreate hS hsupply
        exact ⟨hspent.ledger, ⟨hspent.filed.purse, hspent.filed.named⟩, hspent.supplied, hspent.grows⟩
  · simp only [hk, bind_eq_ok, ofOption_eq_ok] at h
    obtain ⟨page, _, ⟨hpage, rfl⟩, hset⟩ := h
    obtain ⟨e, he, rfl⟩ := Option.map_eq_some_iff.1 hpage
    exact setStorage_spends hpage hset hS hsupply

theorem returns_spends_applySlot (address : Address) (transfers : Transfers) (slot : U256 × U256) :
    Returns (Spends 0) (applySlot operator address transfers slot) := by
  intro S transfers' S' h hS
  obtain ⟨i, v⟩ := slot
  obtain ⟨_, _, hget, h⟩ := bind_eq_ok.1 h
  obtain ⟨rfl, rfl⟩ := get_eq_ok.1 hget
  obtain ⟨contract, _, hcontract, h⟩ := bind_eq_ok.1 h
  obtain ⟨hhandle, rfl⟩ := ofOption_eq_ok.1 hcontract
  obtain ⟨_, _, hassert, h⟩ := bind_eq_ok.1 h
  obtain ⟨-, rfl⟩ := assertThat_eq_ok.1 hassert
  split_ifs at h with hi
  · obtain ⟨_, _, hlength, h⟩ := bind_eq_ok.1 h
    obtain ⟨-, rfl⟩ := assertThat_eq_ok.1 hlength
    obtain ⟨_, _, hsave, h⟩ := bind_eq_ok.1 h
    obtain ⟨-, rfl⟩ := pure_eq_ok.1 h
    exact hS.spends_save hhandle hsave rfl rfl hS
  · exact applyPaged_spends h hS

theorem returns_spends_applyStorage (storage : Slots) :
    Returns (Spends 0) (applyStorage operator storage) := by
  refine returns_bind (returns_foldl (fun _ _ => ?_) _ _) fun _ => returns_foldl (fun _ _ => ?_) _ _
  · exact returns_foldl (fun _ _ => returns_spends_applySlot _ _ _) _ _
  · exact returns_spends_onLedger (returns_systemTransfer _ _ _)

/-! ## A whole journal -/

theorem applyAction_spends {x : Action} (hx : x.IsForeign) {storage storage' : Slots}
    (h : applyAction storage x S = .ok storage' S') : Spends x.withdrawn S S' := by
  cases x with
  | externalInstruction program accounts data seeds fee =>
    obtain ⟨_, _, hinvoke, h⟩ := bind_eq_ok.1 h
    obtain ⟨-, rfl⟩ := pure_eq_ok.1 h
    have hforeign : (⟨program, accounts, data⟩ : Instruction).programId ≠ programId := hx
    exact returns_spends_invokeExternal hforeign _ _ _ hinvoke
  | neonTransfer source target value =>
    obtain ⟨_, _, htransfer, h⟩ := bind_eq_ok.1 h
    obtain ⟨-, rfl⟩ := pure_eq_ok.1 h
    exact returns_spends_transferNeonTokens _ _ _ _ _ _ htransfer
  | neonWithdraw source value =>
    obtain ⟨_, _, hwithdraw, h⟩ := bind_eq_ok.1 h
    obtain ⟨-, rfl⟩ := pure_eq_ok.1 h
    exact withdraw_spends hwithdraw
  | evmSetStorage address index value =>
    obtain ⟨-, rfl⟩ := pure_eq_ok.1 h
    exact refl_of (Spends 0) S
  | evmIncrementNonce address =>
    obtain ⟨_, _, hnonce, h⟩ := bind_eq_ok.1 h
    obtain ⟨-, rfl⟩ := pure_eq_ok.1 h
    exact returns_spends_incrementNonce _ _ _ _ hnonce
  | evmSetCode address code =>
    obtain ⟨_, _, hdeploy, h⟩ := bind_eq_ok.1 h
    obtain ⟨-, rfl⟩ := pure_eq_ok.1 h
    exact returns_spends_deployContract _ _ _ _ _ hdeploy
  | evmSelfDestruct address =>
    obtain ⟨_, _, hdelete, h⟩ := bind_eq_ok.1 h
    obtain ⟨-, rfl⟩ := pure_eq_ok.1 h
    exact returns_spends_deleteAccount _ _ _ _ hdelete

/-- **Applying a journal** takes out of circulation what it withdraws. -/
theorem applyStateChange_spends {actions : List Action} (hforeign : ∀ x ∈ actions, x.IsForeign)
    {readiness : AccountsReadiness} (h : applyStateChange operator actions S = .ok readiness S') :
    Spends (if readiness = .ready then withdrawnBy actions else 0) S S' := by
  simp only [applyStateChange, bind_eq_ok, get_eq_ok, ofOption_eq_ok] at h
  obtain ⟨_, _, ⟨rfl, rfl⟩, operations, _, ⟨-, rfl⟩, r, S₁, hprocess, h⟩ := h
  have hprocessed : Spends 0 S S₁ :=
    returns_foldl (returns_spends_processOperation operator) _ _ _ _ _ hprocess
  split_ifs at h with hr
  · obtain ⟨rfl, rfl⟩ := pure_eq_ok.1 h
    exact hprocessed
  · simp only [bind_eq_ok, pure_eq_ok] at h
    obtain ⟨_, S₂, hcreate, storage, S₃, hactions, _, S₄, hstorage, rfl, rfl⟩ := h
    have hcreated : Spends 0 S₁ S₂ :=
      returns_foldl (fun _ => returns_spends_createAccountIfNotExists) _ _ _ _ _ hcreate
    have happlied : Spends (withdrawnBy (rearrangeActions actions)) S₂ S₃ := by
      refine foldl_invariant (I := fun done _ S' => Spends (withdrawnBy done) S₂ S') ?_
        (refl_of (Spends 0) S₂) hactions
      intro done x rest _ S₅ _ S₆ hsplit hdone hstep
      have hx : x ∈ rearrangeActions actions := by
        rw [hsplit]
        exact List.mem_append_right _ List.mem_cons_self
      rw [withdrawnBy_concat]
      exact hdone.trans (applyAction_spends (hforeign x (mem_rearrangeActions.1 hx).1) hstep)
    have hstored : Spends 0 S₃ S₄ := returns_spends_applyStorage _ _ _ _ hstorage
    rw [if_pos rfl, ← withdrawnBy_rearrange, ← Nat.zero_add (withdrawnBy _), ← Nat.add_zero (0 + _)]
    exact ((hprocessed.trans hcreated).trans happlied).trans hstored

omit [Runtime.Lawful] in
theorem Coherent.filed (hS : S.Coherent) (hnamed : S.Named) : S.Filed where
  purse hk := by
    obtain ⟨rfl, e, he⟩ := hS.ethereum hk
    obtain ⟨hheld, haddress⟩ := Ledger.account_eq_some.1 he
    exact ⟨_, haddress ▸ Ledger.purse_of_held hheld⟩
  named := hnamed

/-- **NEON is neither made nor lost** by a journal: what it withdraws leaves the supply when all of it
is applied, and whoever was not supplied keeps what he holds. -/
theorem neon_conserved {actions : List Action} (hforeign : ∀ x ∈ actions, x.IsForeign)
    {readiness : AccountsReadiness} (hS : S.Coherent) (hnamed : S.Named)
    (hsupply : S.ledger.supply < 2 ^ 256)
    (h : applyStateChange operator actions S = .ok readiness S') :
    S'.ledger.supply + (if readiness = .ready then withdrawnBy actions else 0) = S.ledger.supply ∧
      ∀ k ∉ S.solanaAccounts, S'.ledger.purse k = S.ledger.purse k := by
  have hspent := applyStateChange_spends hforeign h (hS.filed hnamed) hsupply
  exact ⟨hspent.ledger.supply, fun _ hk => hspent.ledger.frame hk⟩

end

end ProgramAccountStorage

end NeonEvm
