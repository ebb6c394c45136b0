import NeonEvm.AccountStorage.History
import NeonEvm.Instruction.Deposit
import NeonEvm.Instruction.Holders
import NeonEvm.Instruction.Saved
import NeonEvm.Lib.Leases

/-!
# Instruction/Turns — what one instruction may do to the others

    Turn s L L'      accounts that others have locked change in their balance at most
                     no state but `s` changes
                     `s` locks accounts that were free, or unlocks all of its own

A transaction under way has its accounts on the list of its state.  Here are the instructions that
work on no state at all.
-/

namespace NeonEvm

open Exec Packable

variable [Platform] [Runtime]

/-- No Ethereum account, no page of storage and no state. -/
structure Content.Idle (c : Content) : Prop where
  account : (split c : Option (EthereumAccount × Bytes)) = none
  page : (split c : Option (EthereumStorage × Bytes)) = none
  state : (split c : Option (State × Bytes)) = none

omit [Platform] [Runtime] in
theorem Content.idle_of_tag {c : Content} (h : c.tag = some TAG_EMPTY) : c.Idle :=
  ⟨split_ethereum_of_tag c h, split_storage_of_tag c h, split_state_of_tag c h⟩

omit [Platform] [Runtime] in
theorem Content.Idle.ne_ethereum {c : Content} (h : c.Idle) {d : EthereumAccount} {rest : Bytes} :
    c ≠ .ethereum d rest := by
  rintro rfl
  cases h.account

omit [Platform] [Runtime] in
theorem Content.Idle.ne_storage {c : Content} (h : c.Idle) {p : EthereumStorage} {rest : Bytes} :
    c ≠ .storage p rest := by
  rintro rfl
  cases h.page

omit [Platform] in
/-- What is not under a key, where the content is of another kind. -/
theorem held_eq_none_of_split {L : Ledger} {τ : Type} [Packable τ] {k : Pubkey}
    (h : (split (L k).content : Option (τ × Bytes)) = none) : L.held τ k = none := by
  rw [Ledger.held, h]
  exact ite_self _

namespace Ledger

variable {L L' : Ledger} {k : Pubkey} {K P : Pubkey → Prop}

/-! ## Claims -/

/-- The accounts that a state has on its list as being there; nothing is claimed where there is no
state. -/
def claims (L : Ledger) : Option Pubkey → Set Pubkey
  | none => ∅
  | some s => {k | ∃ d rest, L.held State s = some (d, rest) ∧
      ∃ m ∈ d.listed rest, m.key = k ∧ m.exists_ = true}

/-- An Ethereum account but for its balance, and the pages of its storage. -/
abbrev Property : Type :=
  Option (EthereumAccount × Bytes) × (Pubkey → Option (EthereumStorage × Bytes))

/-- What is under a key. -/
def property (L : Ledger) (k : Pubkey) : Property :=
  ((L.held EthereumAccount k).map fun e => ({ e.1 with balance := 0 }, e.2),
    fun j => (L.held EthereumStorage j).filter fun p => p.1.address.key = k)

/-- The locks, with the states that claim them. -/
def leases (L : Ledger) : Leases Pubkey (Option Pubkey) Property := ⟨L.locked, L.claims, L.property⟩

omit [Platform] in
theorem claims_of_held {s : Pubkey} {d : State} {rest : Bytes}
    (h : L.held State s = some (d, rest)) :
    L.claims (some s) = {k | ∃ m ∈ d.listed rest, m.key = k ∧ m.exists_ = true} := by
  ext k
  refine ⟨?_, fun hk => ⟨d, rest, h, hk⟩⟩
  rintro ⟨e, r, he, hk⟩
  obtain ⟨rfl, rfl⟩ := Prod.mk.inj (Option.some.inj (h.symm.trans he))
  exact hk

omit [Platform] in
theorem claims_of_none {s : Pubkey} (h : L.held State s = none) : L.claims (some s) = ∅ := by
  ext k
  refine ⟨?_, fun hk => hk.elim⟩
  rintro ⟨e, r, he, -⟩
  rw [h] at he
  cases he

omit [Platform] in
theorem claims_congr {s : Pubkey} (h : L'.held State s = L.held State s) :
    L'.claims (some s) = L.claims (some s) := by
  ext k
  rw [claims, claims, Set.mem_ofPred_eq, Set.mem_ofPred_eq, h]

/-- **What was not worked on** is as it was, but for its balance. -/
theorem Within.property_eq (h : L.Within K P L') (hk : ¬K k) (hlocked : k ∈ L.locked) :
    L'.property k = L.property k := by
  obtain ⟨d, rest, hd, -⟩ := hlocked
  obtain ⟨d', rest', hd', -, hframe⟩ := h.account hd
  obtain ⟨heq, rfl⟩ := hframe hk
  refine Prod.ext ?_ (funext fun j => Option.ext fun p => ?_)
  · show (L'.held EthereumAccount k).map _ = (L.held EthereumAccount k).map _
    rw [hd, hd', heq]
    rfl
  · show (L'.held EthereumStorage j).filter _ = some p ↔ (L.held EthereumStorage j).filter _ = some p
    rw [Option.filter_eq_some_iff, Option.filter_eq_some_iff]
    refine and_congr_left fun hp => ?_
    obtain ⟨p, r⟩ := p
    exact h.page fun hK => hk (of_decide_eq_true hp ▸ hK)

/-! ## Histories that go on -/

/-- **The storage of contracts is on record**: whatever journals brought the first ledger about,
some more of them, or none, brought the second about. -/
def Recorded (L L' : Ledger) : Prop :=
  ∀ journals, History journals L → ∃ more, History (journals ++ more) L'

theorem recorded_of_history (h : ∀ journals, History journals L → History journals L') :
    L.Recorded L' := fun journals hL =>
  ⟨[], (List.append_nil journals).symm ▸ h journals hL⟩

instance : Std.Refl Recorded := ⟨fun _ => recorded_of_history fun _ h => h⟩

instance : IsTrans Ledger Recorded where
  trans L L' L'' h h' journals hL := by
    obtain ⟨more, hL'⟩ := h journals hL
    obtain ⟨more', hL''⟩ := h' _ hL'
    exact ⟨more ++ more', List.append_assoc .. ▸ hL''⟩

theorem Bypasses.recorded (h : L.Bypasses L') : L.Recorded L' :=
  recorded_of_history fun _ hL => hL.own h

end Ledger

variable [Bincode] {L L' : Ledger} {s : Option Pubkey} {K P : Pubkey → Prop}

/-- **Accounts are locked by transactions under way**, each by one, and the journals that these have
saved ask other programs only. -/
structure Ledger.Ordered (L : Ledger) : Prop where
  placed : L.Placed
  exclusive : L.leases.Exclusive
  saves : ∀ {t d rest}, L.held State t = some (d, rest) → d.SavesForeign rest

/-- What an instruction does that works on the state `s`, or on none. -/
structure Ledger.Turn (s : Option Pubkey) (L L' : Ledger) : Prop where
  within : ∃ K P, L.Within K P L' ∧ ∀ k, K k → k ∈ L.locked → k ∈ L.claims s
  states : ∀ t, some t ≠ s → L'.held State t = L.held State t
  locks : (∃ ks, (∀ k ∈ ks, k ∉ L.locked) ∧ L'.locked = L.locked ∪ ks ∧
      L'.claims s = L.claims s ∪ ks) ∨
    L'.locked = L.locked \ L.claims s ∧ L'.claims s = ∅ ∧ ∀ t, s = some t → L'.held State t = none
  saves : ∀ {t d rest}, some t = s → L'.held State t = some (d, rest) → d.SavesForeign rest
  recorded : L.Recorded L'

namespace Ledger

/-- **A turn respects the others.** -/
theorem Turn.respects (hL : L.Ordered) (h : L.Turn s L') :
    L.leases.Respects s L'.leases where
  claims {t} ht := by
    rcases t with _ | t
    · rfl
    · exact claims_congr (h.states t ht)
  value {t k} ht hk := by
    obtain ⟨K, P, hwithin, hK⟩ := h.within
    have hlocked : k ∈ L.locked := hL.exclusive.isLocked hk
    exact hwithin.property_eq (fun hk' => ht (hL.exclusive.unique hk (hK k hk' hlocked))) hlocked

/-- **A turn is a step of the leases**, and keeps them in order. -/
theorem Turn.step (hL : L.Ordered) (h : L.Turn s L') :
    Leases.Step s L.leases L'.leases ∧ L'.Ordered := by
  have hstep : Leases.Step s L.leases L'.leases := by
    rcases h.locks with ⟨ks, free, locked, claims⟩ | ⟨locked, claims, -⟩
    · exact .take ks free locked claims (h.respects hL)
    · exact .drop locked claims (h.respects hL)
  obtain ⟨K, P, hwithin, -⟩ := h.within
  refine ⟨hstep, hwithin.placed hL.placed, hL.exclusive.step hstep, fun {t d rest} ht => ?_⟩
  by_cases hts : some t = s
  · exact h.saves hts ht
  · exact hL.saves ((h.states t hts).symm.trans ht)

/-! ## No state -/

omit [Bincode] in
/-- An instruction that works on free accounts and on no state. -/
structure Aside (L L' : Ledger) : Prop where
  within : ∃ K P, L.Within K P L' ∧ ∀ k, K k → k ∉ L.locked
  locked : L'.locked = L.locked
  states : ∀ t, L'.held State t = L.held State t
  recorded : L.Recorded L'

instance : Std.Refl Aside :=
  ⟨fun L => ⟨⟨fun _ => False, fun _ => False, .refl, fun _ hk => hk.elim⟩, rfl, fun _ => rfl,
    refl_of Recorded L⟩⟩

instance : IsTrans Ledger Aside where
  trans L L' L'' h h' := by
    obtain ⟨K, P, hwithin, hfree⟩ := h.within
    obtain ⟨K', P', hwithin', hfree'⟩ := h'.within
    refine ⟨⟨fun k => K k ∨ K' k, fun k => P k ∨ P' k, ?_, ?_⟩, h'.locked.trans h.locked,
      fun t => (h'.states t).trans (h.states t), Trans.trans h.recorded h'.recorded⟩
    · exact (hwithin.mono (fun _ => .inl) fun _ => .inl).trans
        (hwithin'.mono (fun _ => .inr) fun _ => .inr)
    · exact fun k hk => hk.elim (hfree k) (h.locked ▸ hfree' k)

/-- **It is a turn** of anyone. -/
theorem Aside.turn (hL : L.Ordered) (h : L.Aside L') : L.Turn s L' where
  within := by
    obtain ⟨K, P, hwithin, hfree⟩ := h.within
    exact ⟨K, P, hwithin, fun k hk hlocked => (hfree k hk hlocked).elim⟩
  states t _ := h.states t
  locks := by
    refine .inl ⟨∅, fun _ hk => hk.elim, by rw [h.locked, Set.union_empty], ?_⟩
    rw [Set.union_empty]
    rcases s with _ | s
    · rfl
    · exact claims_congr (h.states s)
  saves _ ht := hL.saves ((h.states _).symm.trans ht)
  recorded := h.recorded

omit [Bincode] in
theorem Within.held_state (h : L.Within K (fun _ => False) L') (t : Pubkey) :
    L'.held State t = L.held State t :=
  held_state_congr (h.paper fun hf => hf)

omit [Bincode] in
/-- **Other programs.** -/
theorem Foreign.aside (h : L.Foreign L') : L.Aside L' :=
  ⟨⟨fun _ => False, fun _ => False, h.within, fun _ hk => hk.elim⟩, h.locked,
    (h.within (K := fun _ => False)).held_state, h.bypasses.recorded⟩

omit [Bincode] in
/-- **An emptied account** that is removed was no account of ours that counts. -/
theorem Purges.aside (hne : Platform.systemProgramId ≠ programId) (h : L.Purges L') :
    L.Aside L' := by
  have hpaper (j : Pubkey) : L'.paper j = L.paper j := by
    obtain ⟨k, -, ⟨n, hcontent⟩, rfl⟩ := h
    by_cases hj : j = k
    · have hnone : L.paper j = none := by
        rw [paper, hj, hcontent]
        exact ite_self _
      rw [hnone, paper, hj, set_self]
      exact if_neg hne
    · rw [paper, paper, set_of_ne hj]
  have haccount := h.held_eq (τ := EthereumAccount) hne fun _ => rfl
  exact ⟨⟨fun _ => False, fun _ => False, within_of_held_eq haccount
    (h.held_eq hne fun _ => rfl) hpaper, fun _ hk => hk.elim⟩, locked_congr haccount,
    fun t => held_state_congr (hpaper t), (h.bypasses hne).recorded⟩

omit [Bincode] in
/-- **A holder is written**, or wiped. -/
theorem aside_setPaper {c : Content} (howner : (L k).owner = programId)
    (hidle : (L k).content.Idle) (hc : c.Idle)
    (hseeded : L.paper k = none → c.paper.isSome → Seeded k) : L.Aside (L.setContent k c) := by
  have haccount : L.held EthereumAccount k = none := held_eq_none_of_split hidle.account
  have hpage : L.held EthereumStorage k = none := held_eq_none_of_split hidle.page
  refine ⟨⟨fun _ => False, (· = k), within_setPaper howner haccount hpage rfl hc.ne_ethereum
    hc.ne_storage hseeded, fun _ hk => hk.elim⟩, locked_setOther haccount fun h =>
    (hc.ne_ethereum h).elim, fun t => ?_, ?_⟩
  · by_cases ht : t = k
    · rw [ht, held_eq_none_of_split hidle.state, held_setContent, if_pos rfl, if_pos howner, hc.state]
    · exact held_state_congr (by rw [paper_setContent, if_neg ht])
  · exact (bypasses_setOther haccount hpage hc.account hc.page).recorded

omit [Bincode] in
/-- **A balance changes.** -/
theorem aside_setBalance {d : EthereumAccount} {rest : Bytes}
    (hd : L.held EthereumAccount k = some (d, rest)) (b : U256) :
    L.Aside (L.setContent k (.ethereum { d with balance := b } rest)) := by
  have hwithin : L.Within (fun _ => False) (fun _ => False)
      (L.setContent k (.ethereum { d with balance := b } rest)) :=
    within_setAccount hd rfl fun _ => ⟨rfl, rfl⟩
  have hbypasses : L.Bypasses (L.setContent k (.ethereum { d with balance := b } rest)) :=
    bypasses_setAccount hd rfl rfl rfl
  exact ⟨⟨_, _, hwithin, fun _ hk => hk.elim⟩, locked_setAccount hd rfl, hwithin.held_state,
    hbypasses.recorded⟩

omit [Bincode] in
/-- **A new account** is free. -/
theorem aside_newAccount {a : Address} {bumpSeed : UInt8} {n : ℕ}
    (howner : (L a.key).owner = programId) (htag : (L a.key).content.tag = some TAG_EMPTY) :
    L.Aside (L.setContent a.key (.ethereum (.new a bumpSeed) (List.replicate n 0))) := by
  have hwithin : L.Within (fun _ => False) (fun _ => False)
      (L.setContent a.key (.ethereum (.new a bumpSeed) (List.replicate n 0))) :=
    within_newAccount howner htag rfl
  have haccount : L.held EthereumAccount a.key = none :=
    held_eq_none_of_tag htag Content.split_ethereum_of_tag
  have hpage : L.held EthereumStorage a.key = none :=
    held_eq_none_of_tag htag Content.split_storage_of_tag
  refine ⟨⟨_, _, hwithin, fun _ hk => hk.elim⟩, locked_setOther haccount ?_, hwithin.held_state,
    (bypasses_newAccount haccount hpage).recorded⟩
  intro d r hd
  obtain ⟨rfl, -⟩ := Content.ethereum.inj hd
  rfl

end Ledger

open Ledger

omit [Bincode] in
theorem returns_aside {α : Type} {x : Program α} (h : Returns Foreign x) : Returns Aside x :=
  fun _ _ _ hx => (h _ _ _ hx).aside

/-! ## What is only read -/

omit [Platform] [Runtime] [Bincode] in
theorem returns_of_reads {σ α : Type} {R : σ → σ → Prop} [Std.Refl R] {x : Exec Fault Error σ α}
    (h : Moves Eq x) : Returns R x := fun s a t hx => by
  rw [h.returns s a t hx]
  exact refl_of R t

omit [Platform] [Runtime] [Bincode] in
theorem reads_readU32 (instruction : Bytes) (offset : ℕ) : Moves Eq (readU32 instruction offset) :=
  moves_bind (moves_lift _) fun _ => moves_pure _

omit [Platform] [Runtime] [Bincode] in
theorem reads_programFromAccount (key : Pubkey) (info : AccountMeta) :
    Moves Eq (programFromAccount key info) :=
  moves_bind (moves_failIf _ _) fun _ => moves_pure _

omit [Runtime] [Bincode] in
theorem reads_operatorFromAccountNotWhitelisted (info : AccountMeta) :
    Moves Eq (operatorFromAccountNotWhitelisted info) :=
  moves_bind (moves_gets _) fun _ => moves_bind (moves_failIf _ _) fun _ =>
    moves_bind (moves_failIf _ _) fun _ => moves_bind (moves_failIf _ _) fun _ => moves_pure _

omit [Bincode] in
theorem reads_treasuryFromAccount (index : ℕ) (info : AccountMeta) :
    Moves Eq (treasuryFromAccount index info) :=
  moves_bind (moves_failIf _ _) fun _ => moves_pure _

omit [Runtime] [Bincode] in
theorem reads_tokenStateFromAccount (info : AccountMeta) : Moves Eq (tokenStateFromAccount info) :=
  moves_bind (moves_gets _) fun _ => moves_bind (moves_failIf _ _) fun _ => moves_lift _

omit [Platform] [Bincode] in
theorem reads_openAccount (τ : Type) [Packable τ] (key : Pubkey) : Moves Eq (openAccount τ key) := by
  refine moves_bind (moves_gets _) fun account => moves_bind (moves_failIf _ _) fun _ =>
    moves_bind (moves_failIf _ _) fun _ => ?_
  split
  · exact moves_pure _
  · exact moves_fail _

/-! ## Holders -/

omit [Bincode] in
/-- **A holder is made** at an address with a seed. -/
theorem returns_accountHolderCreate (accounts : List AccountMeta) (instruction : Bytes) :
    Returns Aside (accountHolderCreate accounts instruction) := by
  intro L u L' h
  simp only [accountHolderCreate, bind_eq_ok, ofOption_eq_ok, lift_eq_ok, failIf_eq_ok] at h
  obtain ⟨info, _, ⟨-, rfl⟩, operatorInfo, _, ⟨-, rfl⟩, operator, _, hoperator, _, _, ⟨-, rfl⟩, seed, _,
    ⟨-, rfl⟩, _, _, ⟨-, rfl⟩, _, _, ⟨-, rfl⟩, _, _, ⟨hkey, rfl⟩, h⟩ := h
  obtain ⟨rfl, -, -⟩ := operatorFromAccountNotWhitelisted_ok hoperator
  have hkey : Platform.createWithSeed operator seed programId = info.pubkey := by simpa using hkey
  obtain ⟨howner, htag, rfl⟩ := initAccount_ok h
  exact aside_setPaper howner (Content.idle_of_tag htag) ⟨rfl, rfl, rfl⟩
    fun _ _ => ⟨_, _, hkey.symm⟩

omit [Bincode] in
/-- **A holder is deleted**, and so is a finalized state; a state never is. -/
theorem returns_accountHolderDelete (accounts : List AccountMeta) :
    Returns Aside (accountHolderDelete accounts) := by
  have deleted {L L' : Ledger} {k operator : Pubkey} {u : Unit} (howner : (L k).owner = programId)
      (hidle : (L k).content.Idle) (h : deleteAccount k operator L = .ok u L') : L.Aside L' := by
    simp only [deleteAccount, bind_eq_ok, modify_eq_ok] at h
    obtain ⟨_, _, rfl, _, _, rfl, rfl⟩ := h
    generalize hL₁ : (L.setLamports operator ((L operator).lamports + (L k).lamports)).setLamports k
      0 = L₁
    have hforeign : L.Foreign L₁ := hL₁ ▸
      Trans.trans foreign_setLamports foreign_setLamports
    obtain ⟨howner₁, hcontent₁⟩ := hforeign.keeps howner
    refine Trans.trans hforeign.aside
      (aside_setPaper howner₁ (hcontent₁ ▸ hidle) ⟨rfl, rfl, rfl⟩ fun _ hsome => ?_)
    cases hsome
  intro L u L' h
  simp only [accountHolderDelete, bind_eq_ok, ofOption_eq_ok] at h
  obtain ⟨operatorInfo, _, ⟨-, rfl⟩, operator, _, hoperator, info, _, ⟨-, rfl⟩, tag, _, htag, h⟩ := h
  obtain ⟨rfl, -, -⟩ := operatorFromAccountNotWhitelisted_ok hoperator
  obtain ⟨-, -, rfl⟩ := accountTag_eq_ok.1 htag
  split_ifs at h with hholder hfinalized
  · obtain ⟨d, _, hd, h⟩ := bind_eq_ok.1 h
    obtain ⟨rfl, rest, hheld⟩ := fromAccount_ok hd
    obtain ⟨_, _, hfail, h⟩ := bind_eq_ok.1 h
    obtain ⟨-, rfl⟩ := failIf_eq_ok.1 hfail
    obtain ⟨howner, hcontent⟩ := held_holder.1 hheld
    exact deleted howner (hcontent ▸ ⟨rfl, rfl, rfl⟩) h
  · obtain ⟨d, _, hd, h⟩ := bind_eq_ok.1 h
    obtain ⟨rfl, rest, hheld⟩ := fromAccount_ok hd
    obtain ⟨_, _, hfail, h⟩ := bind_eq_ok.1 h
    obtain ⟨-, rfl⟩ := failIf_eq_ok.1 hfail
    obtain ⟨howner, hcontent⟩ := held_finalized.1 hheld
    exact deleted howner (hcontent ▸ ⟨rfl, rfl, rfl⟩) h
  · exact (fail_eq_ok.1 h).elim

omit [Bincode] in
/-- **A holder is written**, a finalized state among them. -/
theorem returns_accountHolderWrite (accounts : List AccountMeta) (instruction : Bytes) :
    Returns Aside (accountHolderWrite accounts instruction) := by
  intro L u L' h
  obtain ⟨info, d, rest, -, howner, hprepared, -, -, rfl⟩ :=
    HolderWrite.run_ok (w := ⟨accounts, instruction⟩) h
  have hidle : (L info.pubkey).content.Idle ∧ (L.paper info.pubkey).isSome = true := by
    rw [Ledger.paper, if_pos howner]
    rw [Ledger.prepared] at hprepared
    rcases hholder : L.held Holder info.pubkey with _ | ⟨e, r⟩
    · rw [hholder] at hprepared
      obtain ⟨⟨f, r⟩, hf, -⟩ := Option.map_eq_some_iff.1 hprepared
      rw [(held_finalized.1 hf).2]
      exact ⟨⟨rfl, rfl, rfl⟩, rfl⟩
    · rw [(held_holder.1 hholder).2]
      exact ⟨⟨rfl, rfl, rfl⟩, rfl⟩
  refine aside_setPaper howner hidle.1 ⟨rfl, rfl, rfl⟩ fun hnone _ => ?_
  rw [hnone] at hidle
  cases hidle.2

/-! ## Accounts, deposits and treasuries -/

variable [Runtime.Lawful]

omit [Bincode] in
theorem returns_createAndInitAccount {operator : Pubkey} {a : Address} {info : AccountMeta}
    {bumpSeed : UInt8} {space : ℕ} (hkey : info.pubkey = a.key) :
    Returns Aside (createAndInitAccount operator a info bumpSeed space) := by
  refine returns_bind (returns_aside ?_) fun _ => ?_
  · exact returns_bind (moves_failIf _ _).returns fun _ => returns_createPdaAccount _ _ _ _ _
  · intro L u L' h
    obtain ⟨howner, htag, rfl⟩ := initAccount_ok h
    rw [hkey] at howner htag ⊢
    exact aside_newAccount howner htag

omit [Bincode] in
/-- **An account is made.** -/
theorem returns_accountCreate (accounts : List AccountMeta) (instruction : Bytes) :
    Returns Aside (accountCreate accounts instruction) := by
  intro L u L' h
  simp only [accountCreate, bind_eq_ok, ofOption_eq_ok, lift_eq_ok, failIf_eq_ok, accountAt,
    gets_eq_ok, programFromAccount, pure_eq_ok] at h
  obtain ⟨_, _, ⟨-, rfl⟩, operator, _, hoperator, _, _, ⟨-, rfl⟩, _, _, ⟨_, _, ⟨-, rfl⟩, -, rfl⟩, info, _,
    ⟨-, rfl⟩, bytes, _, ⟨-, rfl⟩, _, _, ⟨rfl, rfl⟩, _, _, ⟨-, rfl⟩, _, _, ⟨hkey, rfl⟩, h⟩ := h
  obtain ⟨rfl, -, -⟩ := operatorFromAccountNotWhitelisted_ok hoperator
  refine returns_createAndInitAccount (a := addressAt bytes) ?_ _ _ _ h
  exact (by simpa using hkey : ((addressAt bytes).findSolanaAddress programId).1 = info.pubkey).symm

omit [Bincode] [Runtime.Lawful] in
theorem validateDeposit_ok {pool info : AccountMeta} {sourceState poolState : TokenAccount}
    {a : Address} {bumpSeed : UInt8}
    (h : validateDeposit pool sourceState poolState info a L = .ok bumpSeed L') :
    L = L' ∧ info.pubkey = a.key := by
  simp only [validateDeposit, bind_eq_ok, failIf_eq_ok, pure_eq_ok] at h
  obtain ⟨_, _, ⟨hkey, rfl⟩, _, _, ⟨-, rfl⟩, _, _, ⟨-, rfl⟩, _, _, ⟨-, rfl⟩, _, _, ⟨-, rfl⟩, _, _,
    ⟨-, rfl⟩, -, rfl⟩ := h
  exact ⟨rfl, (by simpa using hkey : (a.findSolanaAddress programId).1 = info.pubkey).symm⟩

omit [Bincode] in
/-- **A deposit** changes a balance. -/
theorem returns_neonTokensDeposit (hbuilders : BuildersApart) (accounts : List AccountMeta)
    (instruction : Bytes) : Returns Aside (neonTokensDeposit accounts instruction) := by
  have read {α : Type} {x : Program α} (hx : Moves Eq x) : Returns Aside x := returns_of_reads hx
  refine returns_bind (read (moves_ofOption _ _)) fun source => ?_
  refine returns_bind (read (reads_tokenStateFromAccount _)) fun sourceState => ?_
  refine returns_bind (read (moves_ofOption _ _)) fun pool => ?_
  refine returns_bind (read (reads_tokenStateFromAccount _)) fun poolState => ?_
  refine returns_bind (read (moves_ofOption _ _)) fun info => ?_
  refine returns_bind (read (moves_ofOption _ _)) fun _ => ?_
  refine returns_bind (read (reads_programFromAccount _ _)) fun _ => ?_
  refine returns_bind (read (moves_ofOption _ _)) fun _ => ?_
  refine returns_bind (read (reads_operatorFromAccountNotWhitelisted _)) fun operator => ?_
  refine returns_bind (read (moves_ofOption _ _)) fun _ => ?_
  refine returns_bind (read (reads_programFromAccount _ _)) fun _ => ?_
  refine returns_bind (read (moves_lift _)) fun bytes => ?_
  intro L u L' h
  obtain ⟨bumpSeed, _, hvalid, h⟩ := bind_eq_ok.1 h
  obtain ⟨rfl, hkey⟩ := validateDeposit_ok hvalid
  obtain ⟨transfer, _, hbuild, h⟩ := bind_eq_ok.1 h
  obtain ⟨hbuilt, rfl⟩ := lift_eq_ok.1 hbuild
  have hforeign : Returns Aside (invokeSigned (.external transfer)
      (accountSeeds (addressAt bytes) bumpSeed)) :=
    returns_aside (returns_invokeSigned (i := .external transfer) _
      (hbuilders.transfer (ofForeign_eq_ok hbuilt)))
  have hcredit : Returns Aside (do
      let e ← openAccount EthereumAccount info.pubkey
      failIf (2 ^ 256 ≤ e.1.balance.toNat + sourceState.delegatedAmount * 10 ^ additionalDecimals)
        (.ofProgram .invalidArgument)
      assertThat info.isWritable .assertion
      modify (·.setContent info.pubkey (.ethereum { e.1 with
        balance := e.1.balance +
          BitVec.ofNat 256 (sourceState.delegatedAmount * 10 ^ additionalDecimals) } e.2))) := by
    intro L u L' h
    obtain ⟨⟨d, rest⟩, _, hopen, h⟩ := bind_eq_ok.1 h
    obtain ⟨rfl, hd⟩ := openAccount_ok hopen
    simp only [bind_eq_ok, failIf_eq_ok, assertThat_eq_ok, modify_eq_ok] at h
    obtain ⟨_, _, ⟨-, rfl⟩, _, _, ⟨-, rfl⟩, rfl⟩ := h
    exact aside_setBalance hd _
  exact returns_bind hforeign (fun _ => returns_bind (read (moves_gets _)) fun _ => returns_ite
    (fun _ => returns_bind (returns_createAndInitAccount hkey) fun _ => hcredit)
    fun _ => hcredit) _ _ _ h

omit [Bincode] in
/-- **Collecting** is a transfer. -/
theorem returns_collectTreasury [Loader] (accounts : List AccountMeta) (instruction : Bytes) :
    Returns Aside (collectTreasury accounts instruction) := by
  have read {α : Type} {x : Program α} (hx : Moves Eq x) : Returns Aside x := returns_of_reads hx
  refine returns_bind (read (reads_readU32 _ _)) fun _ => ?_
  refine returns_bind (read (moves_ofOption _ _)) fun _ => ?_
  refine returns_bind (read ?_) fun _ => ?_
  · exact moves_bind (moves_failIf _ _) fun _ => moves_bind (reads_tokenStateFromAccount _) fun _ =>
      moves_bind (moves_failIf _ _) fun _ => moves_pure _
  refine returns_bind (read (moves_ofOption _ _)) fun _ => ?_
  refine returns_bind (read (reads_treasuryFromAccount _ _)) fun _ => ?_
  refine returns_bind (read (moves_ofOption _ _)) fun _ => ?_
  refine returns_bind (read (reads_programFromAccount _ _)) fun _ => ?_
  refine returns_bind (read (moves_gets _)) fun _ => ?_
  refine returns_bind (read (moves_lift _)) fun _ => ?_
  refine returns_ite (fun _ => returns_aside ?_) fun _ => read (moves_pure _)
  exact returns_invokeSigned (i := .transfer ..) _ trivial

omit [Bincode] in
/-- **The main treasury** is an account of the token program. -/
theorem returns_createMainTreasury [Loader] (hbuilders : BuildersApart)
    (accounts : List AccountMeta) : Returns Aside (createMainTreasury accounts) := by
  have read {α : Type} {x : Program α} (hx : Moves Eq x) : Returns Aside x := returns_of_reads hx
  refine returns_bind (read (moves_ofOption _ _)) fun _ => ?_
  refine returns_bind (read (moves_ofOption _ _)) fun _ => ?_
  refine returns_bind (read (moves_ofOption _ _)) fun _ => ?_
  refine returns_bind (read (moves_ofOption _ _)) fun _ => ?_
  refine returns_bind (read (reads_programFromAccount _ _)) fun _ => ?_
  refine returns_bind (read (moves_ofOption _ _)) fun _ => ?_
  refine returns_bind (read (reads_programFromAccount _ _)) fun _ => ?_
  refine returns_bind (read (moves_ofOption _ _)) fun _ => ?_
  refine returns_bind (read (moves_ofOption _ _)) fun _ => ?_
  refine returns_bind (read (reads_operatorFromAccountNotWhitelisted _)) fun _ => ?_
  refine returns_bind (read (moves_failIf _ _)) fun _ => ?_
  refine returns_bind (read (moves_failIf _ _)) fun _ => ?_
  refine returns_bind (read ?_) fun _ => ?_
  · refine moves_bind (moves_failIf _ _) fun _ => moves_bind (moves_gets _) fun _ => ?_
    split
    · exact moves_pure _
    · exact moves_fail _
  refine returns_bind (read (moves_failIf _ _)) fun _ => ?_
  refine returns_bind (read (moves_failIf _ _)) fun _ => ?_
  refine returns_bind (returns_aside (returns_createPdaAccount _ _ _ _ _)) fun _ => ?_
  intro L u L' h
  obtain ⟨instruction, _, hbuild, h⟩ := bind_eq_ok.1 h
  obtain ⟨hbuilt, rfl⟩ := lift_eq_ok.1 hbuild
  refine returns_aside (returns_invokeSigned (i := .external instruction) _ ?_) _ _ _ h
  exact hbuilders.initializeAccount (ofForeign_eq_ok hbuilt)

end NeonEvm
