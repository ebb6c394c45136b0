import NeonEvm.Emulator.CodeHash

/-!
# Emulator/Overrides — what becomes of an overridden account

    nonce · balance · code_size · code_hash   through the header, on a handle that may not change
    code                                      beside the header, if the account is a contract
    storage                                   before the chain is asked

`onChain E` is the same chain without overrides.  An override is kept where it gives slots only, or
where there is no account and the override gives what reads of none: nothing.
-/

namespace NeonEvm

/-- `AccountOverride::default`, without values. -/
def AccountOverride.empty : AccountOverride := ⟨none, none, none, none, none⟩

/-- A slot under an override: `state` stands for all slots, `state_diff` for those it names. -/
def AccountOverride.slot (o : AccountOverride) (index stored : U256) : U256 :=
  match o.state with
  | some state => (state index).getD 0
  | none => (o.stateDiff.bind (· index)).getD stored

theorem AccountOverride.not_dirties {o : AccountOverride} (h : ¬o.dirties = true) :
    o.nonce = none ∧ o.balance = none ∧ o.code = none := by
  rcases o with ⟨_ | _, _ | _, _ | _, state, stateDiff⟩ <;> simp_all [AccountOverride.dirties]

namespace EmulatorAccountStorage

/-- The override of an address. -/
def override (E : EmulatorAccountStorage) (a : Address) : AccountOverride :=
  (E.stateOverrides a).getD .empty

/-- The chain behind the overrides. -/
def onChain (E : EmulatorAccountStorage) : EmulatorAccountStorage :=
  { E with stateOverrides := fun _ => none }

variable [Platform] [Runtime]

/-- The chain answers for an address: its code, and each of its slots, can be read. -/
def Readable (E : EmulatorAccountStorage) (a : Address) : Prop :=
  (E.onChain.code a).isSome ∧ ∀ index, (E.onChain.storage a index).isSome

/-- **The emulator's answers about an address agree** with its override, and with each other. -/
structure Coherent (E : EmulatorAccountStorage) (a : Address) : Prop where
  nonce : ∀ n, E.onChain.nonce a = some n → E.nonce a = some ((E.override a).nonce.getD n)
  balance : ∀ b, E.onChain.balance a = some b → E.balance a = some ((E.override a).balance.getD b)
  code : ∀ c, E.onChain.code a = some c →
    ∃ code, E.code a = some code ∧ code.toList = (E.override a).code.getD c.toList
  codeSize : ∀ code, E.code a = some code → E.codeSize a = some code.len
  codeHash : ∀ n b code, E.nonce a = some n → E.balance a = some b → E.code a = some code →
    E.codeHash a = some (if NoAccount n b code.toList then 0 else keccak code.toList)
  storage : ∀ index stored, E.onChain.storage a index = some stored →
    E.storage a index = some ((E.override a).slot index stored)

/-- **Where an override is kept**: it does not give its slots twice, and it gives neither nonce,
balance nor code, or there is no account and it gives nothing of each. -/
def Kept (E : EmulatorAccountStorage) (a : Address) : Prop :=
  ¬((E.override a).state.isSome ∧ (E.override a).stateDiff.isSome) ∧
    (¬(E.override a).dirties = true ∨
      E.open? a = none ∧ (E.override a).nonce.getD 0 = 0 ∧ (E.override a).balance.getD 0 = 0 ∧
        (E.override a).code.getD [] = [])

section

variable {E : EmulatorAccountStorage} {a : Address} {α : Type} {default : α}
  {f : Handle EthereumAccount → α}

/-! ## Reads of a header -/

theorem mapOr_of_none (h : E.open? a = none) : E.ethereumAccountMapOr a default f = some default := by
  unfold ethereumAccountMapOr
  rw [h]

theorem mapOr_of_clean (h : ¬(E.override a).dirties = true) :
    E.ethereumAccountMapOr a default f = some ((E.open? a).elim default f) := by
  unfold ethereumAccountMapOr
  unfold override at h
  rcases E.open? a with _ | account
  · rfl
  · cases ho : E.stateOverrides a with
    | none => rfl
    | some o =>
      rw [ho, Option.getD_some] at h
      have happly := (AccountOverride.apply_of_clean (d := account.data) h).1
      dsimp only
      rw [if_neg h, happly]
      rfl

/-- **A header that is overridden** cannot be read. -/
theorem mapOr_of_dirty {account : Handle EthereumAccount} (hopen : E.open? a = some account)
    (h : (E.override a).dirties = true) : E.ethereumAccountMapOr a default f = none := by
  unfold ethereumAccountMapOr
  unfold override at h
  cases ho : E.stateOverrides a with
  | none =>
    rw [ho] at h
    exact absurd h (by decide)
  | some o =>
    rw [ho] at h
    rw [hopen]
    exact if_pos h

theorem mapOr_onChain :
    E.onChain.ethereumAccountMapOr a default f = some ((E.open? a).elim default f) :=
  mapOr_of_clean (E := E.onChain) Bool.false_ne_true

/-- **Reads of a header are kept** where the override does not change it, or there is none. -/
theorem mapOr_eq_onChain (h : ¬(E.override a).dirties = true ∨ E.open? a = none) :
    E.ethereumAccountMapOr a default f = E.onChain.ethereumAccountMapOr a default f := by
  rw [mapOr_onChain]
  rcases h with h | h
  · exact mapOr_of_clean h
  · rw [mapOr_of_none h, h]
    rfl

/-! ## Codes -/

theorem code_onChain (h : (E.override a).code = none) : E.code a = E.onChain.code a := by
  unfold code
  have ho : (E.stateOverrides a).bind (·.code) = none := by
    unfold override at h
    cases ho : E.stateOverrides a with
    | none => rfl
    | some o =>
      rw [ho] at h
      exact h
  rw [ho]
  rfl

theorem code_of_none (h : E.open? a = none) : E.code a = some .empty := by
  unfold code ethereumContractMapOr
  rw [h]

theorem code_of_some {account : Handle EthereumAccount} (h : E.open? a = some account)
    (ho : (E.stateOverrides a).bind (·.code) = none) : E.code a =
      if account.data.isContract then (account.data.code account.rest).map Buffer.fromSlice
      else some .empty := by
  unfold code ethereumContractMapOr
  rw [ho, h]

/-- The size of a stored code is in the header. -/
theorem codeSize_eq {c : Buffer} (hc : E.onChain.code a = some c) :
    E.onChain.codeSize a = some c.len := by
  unfold codeSize
  rw [mapOr_onChain]
  rcases ha : E.open? a with _ | ⟨key, d, rest⟩
  · obtain rfl := Option.some.inj ((code_of_none (E := E.onChain) ha).symm.trans hc)
    rfl
  · rw [code_of_some (E := E.onChain) ha rfl] at hc
    change (if _ then (d.code rest).map Buffer.fromSlice else some Buffer.empty) = _ at hc
    split_ifs at hc with hcontract
    · obtain ⟨bytes, hbytes, rfl⟩ := Option.map_eq_some_iff.1 hc
      unfold EthereumAccount.code EthereumAccount.extensionPart at hbytes
      split_ifs at hbytes with hlen
      obtain rfl := Option.some.inj hbytes
      rw [Buffer.len, Buffer.toList_fromSlice, List.length_take, List.length_drop, Option.elim_some,
        min_eq_left (by omega)]
    · obtain rfl := Option.some.inj hc
      unfold EthereumAccount.isContract at hcontract
      rw [Option.elim_some, show d.codeSize = 0 by simpa using hcontract]
      rfl

/-- Where the code can be read, so can its hash. -/
theorem exists_codeHash {c : Buffer} (hc : E.onChain.code a = some c) :
    ∃ h, E.onChain.codeHash a = some h := by
  unfold codeHash
  rw [mapOr_onChain]
  simp only [Option.bind_eq_bind, Option.bind_some]
  split_ifs
  · exact ⟨_, rfl⟩
  · unfold code at hc
    unfold ethereumContractMapOr at hc ⊢
    split at hc
    · exact ⟨_, rfl⟩
    · split_ifs at hc ⊢
      · obtain ⟨bytes, hbytes, -⟩ := Option.map_eq_some_iff.1 hc
        exact ⟨keccak bytes, by dsimp only; rw [hbytes]; rfl⟩
      · exact ⟨_, rfl⟩

/-! ## Slots -/

theorem chainSlot_eq {index : U256} (h : E.generation a = E.onChain.generation a) :
    E.chainSlot a index = E.onChain.storage a index := by
  change _ = E.onChain.chainSlot a index
  unfold chainSlot pageSlot
  rw [h]
  rfl

/-- **A slot** is what the override makes of it, unless the override gives its slots twice. -/
theorem storage_eq {index stored : U256} (hstored : E.onChain.storage a index = some stored)
    (hgen : E.generation a = E.onChain.generation a)
    (h : ¬((E.override a).state.isSome ∧ (E.override a).stateDiff.isSome)) :
    E.storage a index = some ((E.override a).slot index stored) := by
  rw [← chainSlot_eq hgen] at hstored
  unfold storage
  unfold override at h ⊢
  cases ho : E.stateOverrides a with
  | none => exact hstored
  | some o =>
    rw [ho, Option.getD_some] at h
    rcases o with ⟨nonce, code, balance, _ | state, _ | stateDiff⟩
    · exact hstored
    · dsimp only [Option.getD_some, AccountOverride.slot, Option.bind_some]
      cases stateDiff index with
      | none => exact hstored
      | some value => rfl
    · rfl
    · exact absurd ⟨rfl, rfl⟩ h

/-- Slots that are given twice are not read. -/
theorem storage_eq_none {index : U256}
    (h : (E.override a).state.isSome ∧ (E.override a).stateDiff.isSome) :
    E.storage a index = none := by
  unfold storage
  unfold override at h
  cases ho : E.stateOverrides a with
  | none =>
    rw [ho] at h
    exact absurd h.1 Bool.false_ne_true
  | some o =>
    rw [ho, Option.getD_some] at h
    rcases o with ⟨nonce, code, balance, _ | state, _ | stateDiff⟩
    · exact absurd h.1 Bool.false_ne_true
    · exact absurd h.1 Bool.false_ne_true
    · exact absurd h.2 Bool.false_ne_true
    · rfl

/-! ## Agreement -/

/-- **The emulator's answers agree if and only if the override is kept.** -/
theorem overrides_agree_where_kept (hreads : E.Readable a) : E.Coherent a ↔ E.Kept a := by
  obtain ⟨c, hc⟩ := Option.isSome_iff_exists.1 hreads.1
  constructor
  · intro h
    refine ⟨fun htwice => ?_, ?_⟩
    · obtain ⟨stored, hstored⟩ := Option.isSome_iff_exists.1 (hreads.2 0)
      have hslot := h.storage 0 stored hstored
      rw [storage_eq_none htwice] at hslot
      cases hslot
    · refine or_iff_not_imp_left.2 fun hdirty => ?_
      rw [not_not] at hdirty
      rcases hopen : E.open? a with _ | account
      · refine ⟨rfl, ?_, ?_, ?_⟩
        · have hn := h.nonce 0 (mapOr_of_none (E := E.onChain) hopen)
          rw [nonce, mapOr_of_none hopen] at hn
          exact (Option.some.inj hn).symm
        · have hb := h.balance 0 (mapOr_of_none (E := E.onChain) hopen)
          rw [balance, mapOr_of_none hopen] at hb
          exact (Option.some.inj hb).symm
        · obtain ⟨code, hcode, heq⟩ := h.code _ (code_of_none (E := E.onChain) hopen)
          obtain rfl := Option.some.inj ((code_of_none hopen).symm.trans hcode)
          exact heq.symm
      · have hn := h.nonce _ mapOr_onChain
        rw [nonce, mapOr_of_dirty hopen hdirty] at hn
        cases hn
  · rintro ⟨htwice, hkept⟩
    have hmap : ¬(E.override a).dirties = true ∨ E.open? a = none := hkept.imp_right And.left
    have hcode : E.code a = E.onChain.code a := by
      rcases hkept with hclean | ⟨hopen, -⟩
      · exact code_onChain (AccountOverride.not_dirties hclean).2.2
      · rw [code_of_none hopen, code_of_none (E := E.onChain) hopen]
    have hsize : E.codeSize a = E.onChain.codeSize a := mapOr_eq_onChain hmap
    have hhash : E.codeHash a = E.onChain.codeHash a := by
      unfold codeHash
      rw [mapOr_eq_onChain hmap]
      rfl
    refine ⟨fun n hn => ?_, fun b hb => ?_, fun code hstored => ?_, fun code hstored => ?_,
      fun n b code hn hb hstored => ?_, fun index stored hstored => ?_⟩
    · rw [nonce, mapOr_eq_onChain hmap]
      rcases hkept with hclean | ⟨hopen, hzero, -⟩
      · rw [(AccountOverride.not_dirties hclean).1]
        exact hn
      · obtain rfl := Option.some.inj ((mapOr_of_none (E := E.onChain) hopen).symm.trans hn)
        rw [hzero]
        exact hn
    · rw [balance, mapOr_eq_onChain hmap]
      rcases hkept with hclean | ⟨hopen, -, hzero, -⟩
      · rw [(AccountOverride.not_dirties hclean).2.1]
        exact hb
      · obtain rfl := Option.some.inj ((mapOr_of_none (E := E.onChain) hopen).symm.trans hb)
        rw [hzero]
        exact hb
    · refine ⟨code, hcode.trans hstored, ?_⟩
      rcases hkept with hclean | ⟨hopen, -, -, hnil⟩
      · rw [(AccountOverride.not_dirties hclean).2.2]
        rfl
      · obtain rfl := Option.some.inj ((code_of_none (E := E.onChain) hopen).symm.trans hstored)
        exact hnil.symm
    · rw [hsize]
      exact codeSize_eq (hcode.symm.trans hstored)
    · obtain ⟨h, hh⟩ := exists_codeHash hc
      rw [hhash, hh, ← codeHash_eq hn hb hstored (hhash.trans hh)]
    · exact storage_eq hstored (mapOr_eq_onChain hmap) htwice

end

/-! ## Two overrides -/

/-- An account that has been used, with one override, on a chain with no other. -/
@[reducible] def overriding (o : AccountOverride) : EmulatorAccountStorage :=
  { EmulatorAccountStorage.on (.one { EthereumAccount.new 0x200 255 with trxCount := 1 }) with
    stateOverrides := fun b => if b = 0x200 then some o else none }

end EmulatorAccountStorage

open EmulatorAccountStorage in
theorem readable_overriding (o : AccountOverride) :
    letI _ := Platform.seeded
    letI _ := Runtime.bare
    Readable (overriding o) 0x200 := by
  let _ := Platform.seeded
  let _ := Runtime.bare
  have hopen : ((overriding .empty).onChain.open? 0x200).any
      (fun account => !account.data.isContract) = true := by decide +kernel
  obtain ⟨account, haccount, hcontract⟩ := (Option.any_eq_true _ _).1 hopen
  change (overriding o).onChain.open? 0x200 = some account at haccount
  rw [Bool.not_eq_true'] at hcontract
  refine ⟨?_, fun index => ?_⟩
  · unfold code ethereumContractMapOr
    rw [haccount]
    dsimp only
    rw [hcontract]
    rfl
  · have hpage : (overriding o).onChain.chainSlot 0x200 index = some 0 := by
      unfold chainSlot ethereumContractMapOr
      rw [haccount]
      dsimp only
      rw [hcontract]
      by_cases hindex : index.toNat < STORAGE_ENTRIES_IN_CONTRACT_ACCOUNT
      · exact if_pos hindex
      · rw [if_neg hindex]
        unfold pageSlot
        exact if_pos rfl
    exact Option.isSome_iff_exists.2 ⟨0, hpage⟩

/-- An override of slots is kept. -/
theorem overrides_agree_where_kept_slots : ∃ (_ : Platform) (_ : Runtime)
    (E : EmulatorAccountStorage), E.Readable 0x200 ∧ E.Coherent 0x200 ∧
      E.storage 0x200 1 = some 7 := by
  let _ := Platform.seeded
  let _ := Runtime.bare
  let E := EmulatorAccountStorage.overriding
    { AccountOverride.empty with stateDiff := some fun index => if index = 1 then some 7 else none }
  have hreads : E.Readable 0x200 := readable_overriding _
  exact ⟨_, _, E, hreads,
    (EmulatorAccountStorage.overrides_agree_where_kept hreads).2 ⟨by decide, .inl (by decide)⟩, rfl⟩

/-- **An override of the nonce stops every read of the header.** -/
theorem overridden_nonce_aborts : ∃ (_ : Platform) (_ : Runtime) (E : EmulatorAccountStorage),
    E.Readable 0x200 ∧ (E.override 0x200).nonce = some 5 ∧ E.nonce 0x200 = none ∧
      ¬E.Coherent 0x200 := by
  let _ := Platform.seeded
  let _ := Runtime.bare
  let E := EmulatorAccountStorage.overriding { AccountOverride.empty with nonce := some 5 }
  have hnone : E.nonce 0x200 = none := by decide +kernel
  refine ⟨_, _, E, readable_overriding _, rfl, hnone, fun h => ?_⟩
  have hread := h.nonce _ EmulatorAccountStorage.mapOr_onChain
  rw [hnone] at hread
  cases hread

end NeonEvm
