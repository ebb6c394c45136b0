import NeonEvm.Account.StateAccount
import NeonEvm.AccountStorage.Slots

/-!
# Account/Locks — the locks of Ethereum accounts

    L.locking b keys      L, the locks of the Ethereum accounts under the keys turned to b

A transaction that takes several instructions holds the accounts it works on by their flag
`rw_blocked`.  Nothing else of an account depends on the flag.
-/

namespace NeonEvm

open Exec Packable

/-- An Ethereum account with another lock. -/
def EthereumAccount.locked (b : Bool) (d : EthereumAccount) : EthereumAccount :=
  { d with rwBlocked := b }

variable [Runtime]

/-- An account with its lock turned, if it is an Ethereum account. -/
def SolanaAccount.locked (b : Bool) (a : SolanaAccount) : SolanaAccount :=
  match if a.owner = programId then split a.content else none with
  | some (d, rest) => { a with content := .ethereum (EthereumAccount.locked b d) rest }
  | none => a

namespace Ledger

/-- The locks of some accounts turned. -/
def locking (L : Ledger) (b : Bool) (keys : List Pubkey) : Ledger := fun k =>
  if k ∈ keys then (L k).locked b else L k

variable {L : Ledger} {k : Pubkey} {b : Bool} {keys : List Pubkey}

theorem locked_of_held {d : EthereumAccount} {rest : Bytes}
    (h : L.held EthereumAccount k = some (d, rest)) :
    (L k).locked b = { L k with content := .ethereum (d.locked b) rest } := by
  rw [SolanaAccount.locked, ← held, h]

theorem locked_of_none (h : L.held EthereumAccount k = none) : (L k).locked b = L k := by
  rw [SolanaAccount.locked, ← held, h]

@[simp] theorem owner_locked : ((L k).locked b).owner = (L k).owner := by
  rcases h : L.held EthereumAccount k with _ | ⟨d, rest⟩
  · rw [locked_of_none h]
  · rw [locked_of_held h]

@[simp] theorem lamports_locked : ((L k).locked b).lamports = (L k).lamports := by
  rcases h : L.held EthereumAccount k with _ | ⟨d, rest⟩
  · rw [locked_of_none h]
  · rw [locked_of_held h]

/-- The tag and the length of the data stay. -/
theorem shape_locked : ((L k).locked b).content.tag = (L k).content.tag ∧
    ((L k).locked b).content.len = (L k).content.len := by
  rcases h : L.held EthereumAccount k with _ | ⟨d, rest⟩
  · rw [locked_of_none h]
    exact ⟨rfl, rfl⟩
  · rw [locked_of_held h, (held_ethereum.1 h).2]
    exact ⟨rfl, rfl⟩

@[simp] theorem locking_nil : L.locking b [] = L := by
  funext k
  rw [locking, if_neg List.not_mem_nil]

@[simp] theorem owner_locking : (L.locking b keys k).owner = (L k).owner := by
  rw [locking]
  split_ifs
  · exact owner_locked
  · rfl

@[simp] theorem tag_locking : (L.locking b keys k).content.tag = (L k).content.tag := by
  rw [locking]
  split_ifs
  · exact shape_locked.1
  · rfl

/-- **Only the lock** of an Ethereum account is turned. -/
theorem held_ethereum_locking :
    (L.locking b keys).held EthereumAccount k =
      (L.held EthereumAccount k).map fun e =>
        (if k ∈ keys then e.1.locked b else e.1, e.2) := by
  rw [held, owner_locking, locking]
  rcases h : L.held EthereumAccount k with _ | ⟨d, rest⟩
  · rw [Option.map_none, locked_of_none h, ite_self]
    exact h
  · rw [locked_of_held h, if_pos (held_ethereum.1 h).1]
    split_ifs
    · rfl
    · rw [(held_ethereum.1 h).2]
      rfl

/-- **An account of another kind** stays as it is. -/
theorem locking_of_none (h : L.held EthereumAccount k = none) : L.locking b keys k = L k := by
  rw [locking, locked_of_none h, ite_self]

@[simp] theorem isSome_held_locking :
    ((L.locking b keys).held EthereumAccount k).isSome = (L.held EthereumAccount k).isSome := by
  rw [held_ethereum_locking, Option.isSome_map]

theorem held_locking {τ : Type} [Packable τ]
    (hτ : ∀ d rest, split (.ethereum d rest) = (none : Option (τ × Bytes))) :
    (L.locking b keys).held τ k = L.held τ k := by
  rcases h : L.held EthereumAccount k with _ | ⟨d, rest⟩
  · rw [held, held, locking_of_none h]
  · rw [held, held, owner_locking, locking, locked_of_held h, (held_ethereum.1 h).2, hτ]
    split_ifs
    · exact (hτ _ _).symm ▸ rfl
    · rw [(held_ethereum.1 h).2, hτ]
    · rfl

/-- **A lock turned twice** — the later turn counts. -/
theorem locked_locked {b' : Bool} : ((L k).locked b).locked b' = (L k).locked b' := by
  rcases h : L.held EthereumAccount k with _ | ⟨d, rest⟩
  · rw [locked_of_none h, locked_of_none h]
  · have hturned : (L.locking b [k]).held EthereumAccount k = some (d.locked b, rest) := by
      rw [held_ethereum_locking, h]
      exact congrArg (fun d => some (d, rest)) (if_pos (List.mem_singleton_self k))
    have hk : L.locking b [k] k = (L k).locked b := if_pos (List.mem_singleton_self k)
    rw [← hk, locked_of_held hturned, hk, locked_of_held h, locked_of_held h]
    rfl

/-- **Locks after locks** are locks. -/
theorem locking_locking {keys' : List Pubkey} :
    (L.locking b keys).locking b keys' = L.locking b (keys ++ keys') := by
  funext k
  simp only [locking, List.mem_append]
  by_cases hk : k ∈ keys
  · rw [if_pos hk, locked_locked, ite_self]
    exact (if_pos (Or.inl hk)).symm
  · rw [if_neg hk]
    exact if_congr (by simp [hk]) rfl rfl

omit [Runtime] in
theorem setContent_self : L.setContent k (L k).content = L := by
  funext j
  rw [setContent_apply]
  split_ifs with hj
  · rw [hj]
  · rfl

/-- **One lock** is turned by a write of the header. -/
theorem locking_singleton {d : EthereumAccount} {rest : Bytes}
    (h : L.held EthereumAccount k = some (d, rest)) :
    L.locking b [k] = L.setContent k (.ethereum (d.locked b) rest) := by
  funext j
  rw [setContent_apply, locking]
  by_cases hj : j = k
  · rw [if_pos hj, if_pos (List.mem_singleton.2 hj), hj, locked_of_held h]
  · rw [if_neg hj, if_neg fun hmem => hj (List.mem_singleton.1 hmem)]

/-- **A write to an account of another kind**, before the locks or behind them. -/
theorem locking_setContent {c c' : Content} (hk : L.held EthereumAccount k = none)
    (hc : split c = (none : Option (EthereumAccount × Bytes))) :
    ((L.setContent k c).locking b keys).setContent k c' = (L.locking b keys).setContent k c' := by
  have hnone : (L.setContent k c).held EthereumAccount k = none := by
    rw [held_setContent, if_pos rfl, hc, ite_self]
  funext j
  rw [setContent_apply, setContent_apply]
  split_ifs with hj
  · rw [locking_of_none hnone, locking_of_none hk, setContent_apply, if_pos rfl]
  · rw [locking, locking, setContent_of_ne hj]

end Ledger

/-! ## Opening accounts that may not be there -/

/-- `if let Ok(account) = AccountData::from_account(..)`. -/
def tryOpen (τ : Type) [Packable τ] (key : Pubkey) : Program (Option (τ × Bytes)) :=
  recover (do pure (some (← openAccount τ key))) fun _ => pure none

variable {τ : Type} [Packable τ] {L : Ledger} {key : Pubkey}

/-- **What is held can be opened**, if it has room for its header. -/
theorem openAccount_of_held {e : τ × Bytes} (hlen : SIZE τ ≤ (L key).content.len)
    (h : L.held τ key = some e) : openAccount τ key L = .ok e L := by
  rw [Ledger.held] at h
  split_ifs at h with howner
  simp only [openAccount, accountAt, bind_eq_ok, gets_eq_ok, failIf_eq_ok]
  refine ⟨_, _, ⟨rfl, rfl⟩, (), L, ⟨by simpa using howner, rfl⟩, (), L,
    ⟨by simpa using hlen, rfl⟩, ?_⟩
  rw [h]
  rfl

/-- **What is not held** cannot be opened. -/
theorem openAccount_of_none (h : L.held τ key = none) : ∃ e, openAccount τ key L = .err e L := by
  rw [Ledger.held] at h
  simp only [openAccount, accountAt, bind_run, gets_run, Outcome.ok_andThen]
  by_cases howner : (L key).owner = programId
  · rw [if_pos howner] at h
    by_cases hlen : (L key).content.len < SIZE τ
    · exact ⟨.accountInvalidData key, by simp [failIf, howner, hlen]⟩
    · exact ⟨.accountInvalidTag key (TAG τ), by simp [failIf, howner, hlen, h]⟩
  · exact ⟨.accountInvalidOwner key programId, by simp [failIf, howner]⟩

/-- **An attempt** finds what is held. -/
theorem tryOpen_run (hlen : (L.held τ key).isSome → SIZE τ ≤ (L key).content.len) :
    tryOpen τ key L = .ok (L.held τ key) L := by
  rw [tryOpen, recover, bind_run]
  rcases h : L.held τ key with _ | e
  · obtain ⟨err, hopen⟩ := openAccount_of_none h
    rw [hopen]
    rfl
  · rw [openAccount_of_held (hlen (h ▸ rfl)) h]
    rfl

@[simp] theorem tryOpen_ethereum :
    tryOpen EthereumAccount key L = .ok (L.held EthereumAccount key) L := by
  refine tryOpen_run fun h => ?_
  obtain ⟨⟨d, rest⟩, hheld⟩ := Option.isSome_iff_exists.1 h
  rw [(Ledger.held_ethereum.1 hheld).2]
  exact Nat.le_add_right ..

theorem Ledger.held_state {d : State} {rest : Bytes} :
    L.held State key = some (d, rest) ↔
      (L key).owner = programId ∧ (L key).content = .state d rest := by
  unfold Ledger.held
  split
  · cases h : (L key).content <;> simp_all [split]
  · simp_all

end NeonEvm
