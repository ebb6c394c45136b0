import Mathlib.Data.List.DropRight
import Mathlib.Logic.Relation
import NeonEvm.AccountStorage.Journal
import NeonEvm.AccountStorage.Bypasses

/-!
# AccountStorage/History — contract storage is a map that self-destruct resets

    read a i = the last value that was written to (a, i) since the last journal that destroyed a
             = 0 if there is none

Over any history of applied journals, from a ledger in which nothing is ours.  Between the journals
other programs do what they may, headers change, and journals are postponed half way.  What a journal
destroys is destroyed at its end: its own writes do not outlive it.
-/

namespace NeonEvm

open Exec Packable EthereumStorage

/-! ## The last value written -/

/-- The last value that a list of writes gives to a slot; `v` if there is none. -/
def SlotWrites.valueAt (ws : SlotWrites) (i v : U256) : U256 :=
  ((ws.reverse.find? (·.1 = i)).map Prod.snd).getD v

/-- The journals since the last one that destroyed the address. -/
def sinceDestroyed (a : Address) (journals : List (List Action)) : List (List Action) :=
  journals.rtakeWhile fun actions => a ∉ destroyedBy actions

/-- **The value last written** to a slot since its address was last destroyed. -/
def lastWritten (journals : List (List Action)) (a : Address) (i : U256) : U256 :=
  SlotWrites.valueAt ((sinceDestroyed a journals).flatMap (writesTo a)) i 0

theorem SlotWrites.valueAt_append (ws ws' : SlotWrites) (i v : U256) :
    SlotWrites.valueAt (ws ++ ws') i v = SlotWrites.valueAt ws' i (SlotWrites.valueAt ws i v) := by
  rw [valueAt, valueAt, valueAt, List.reverse_append, List.find?_append]
  rcases h : ws'.reverse.find? (·.1 = i) with _ | w
  · rw [h, Option.none_or]
    rfl
  · rw [h, Option.some_or]
    rfl

theorem SlotWrites.valueAt_singleton (w : U256 × U256) (i v : U256) :
    SlotWrites.valueAt [w] i v = if i = w.1 then w.2 else v := by
  rw [valueAt, List.reverse_singleton, List.find?_singleton]
  by_cases hi : i = w.1
  · rw [if_pos hi, hi, if_pos (decide_eq_true rfl)]
    rfl
  · rw [if_neg hi, if_neg fun h => hi (of_decide_eq_true h).symm]
    rfl

theorem Storage.writeAll_eq (σ : Storage) (a : Address) (ws : SlotWrites) (i : U256) :
    σ.writeAll a ws a i = SlotWrites.valueAt ws i (σ a i) := by
  induction ws generalizing σ with
  | nil => rfl
  | cons w ws ih =>
    rw [← List.singleton_append, SlotWrites.valueAt_append, List.singleton_append, writeAll,
      List.foldl_cons, ← writeAll, ih, write]
    rw [SlotWrites.valueAt_singleton]
    exact congrArg (SlotWrites.valueAt ws i) (if_congr (and_iff_right rfl) rfl rfl)

/-- **One more journal.** -/
theorem lastWritten_concat (journals : List (List Action)) (actions : List Action) :
    lastWritten (journals ++ [actions]) = Storage.after (lastWritten journals) actions := by
  funext a i
  rw [lastWritten, sinceDestroyed, List.rtakeWhile_concat, Storage.after]
  by_cases ha : a ∈ destroyedBy actions
  · rw [if_neg (by simpa using ha), if_pos ha]
    rfl
  · rw [if_pos (by simpa using ha), if_neg ha, List.flatMap_append, SlotWrites.valueAt_append,
      List.flatMap_singleton, Storage.writeAll_eq, lastWritten, sinceDestroyed]

section

variable [Platform] [Runtime]

namespace ProgramAccountStorage

theorem new_named {clock : Clock} {operator : AccountMeta} {system : Option AccountMeta}
    {accounts : List AccountMeta} {L L' : Ledger} {S : ProgramAccountStorage}
    (h : new clock operator system accounts L = .ok S L') : S.Named := by
  simp only [new, bind_eq_ok, get_eq_ok, pure_eq_ok] at h
  obtain ⟨_, _, -, _, _, -, _, _, -, rfl, -⟩ := h
  exact supplied_ok

theorem new_ledger {clock : Clock} {operator : AccountMeta} {system : Option AccountMeta}
    {accounts : List AccountMeta} {L L' : Ledger} {S : ProgramAccountStorage}
    (h : new clock operator system accounts L = .ok S L') : S.ledger = L' := by
  simp only [new, bind_eq_ok, get_eq_ok, pure_eq_ok] at h
  obtain ⟨_, _, -, _, _, -, _, _, ⟨rfl, rfl⟩, rfl, rfl⟩ := h
  rfl

end ProgramAccountStorage

open ProgramAccountStorage in
/-- An instruction that hands a journal to the accounts: it opens them, and what it does before and
after the journal bypasses the storage. -/
structure Instructs (L : Ledger) (actions : List Action) (readiness : AccountsReadiness)
    (L' : Ledger) : Prop where
  isForeign : ∀ x ∈ actions, x.IsForeign
  run : ∃ (clock : Clock) (operator : AccountMeta) (system : Option AccountMeta)
    (accounts : List AccountMeta) (L₀ L₁ : Ledger) (S S' : ProgramAccountStorage),
    new clock operator system accounts L = .ok S L₀ ∧ S.ledger.Bypasses L₁ ∧
      applyStateChange operator.pubkey actions { S with ledger := L₁ } = .ok readiness S' ∧
      S'.ledger.Bypasses L'

/-- The journals that were applied, from a ledger in which nothing is ours.  Besides them the program
writes what bypasses the storage (holders, states, locks, nonces, balances, new accounts), opens
accounts and clears their stale pages, and hands journals to accounts that are not ready. -/
inductive History : List (List Action) → Ledger → Prop
  | genesis {L : Ledger} (h : ∀ k, (L k).owner ≠ programId) : History [] L
  | other {journals : List (List Action)} {L L' : Ledger} (h : History journals L)
      (hL : L.Foreign L') : History journals L'
  | purged {journals : List (List Action)} {L L' : Ledger} (h : History journals L)
      (hL : L.Purges L') : History journals L'
  | own {journals : List (List Action)} {L L' : Ledger} (h : History journals L)
      (hL : L.Bypasses L') : History journals L'
  | opened {journals : List (List Action)} {L L' : Ledger} {clock : Clock} {operator : AccountMeta}
      {system : Option AccountMeta} {accounts : List AccountMeta} {S : ProgramAccountStorage}
      (h : History journals L)
      (hL : ProgramAccountStorage.new clock operator system accounts L = .ok S L') :
      History journals L'
  | postponed {journals : List (List Action)} {actions : List Action} {L L' : Ledger}
      (h : History journals L) (hL : Instructs L actions .needMoreReallocations L') :
      History journals L'
  | applied {journals : List (List Action)} {actions : List Action} {L L' : Ledger}
      (h : History journals L) (hL : Instructs L actions .ready L') :
      History (journals ++ [actions]) L'

namespace History

variable [Runtime.Lawful] {journals : List (List Action)} {actions : List Action} {L L' : Ledger}
  {readiness : AccountsReadiness}

/-- **A journal** that is handed to the accounts. -/
theorem instructs_ok (hapart : AddressesApart) (hL : L.Sound)
    (h : Instructs L actions readiness L') :
    L'.Sound ∧ ∀ a i, L'.slot a i =
      if readiness = .ready then Storage.after L.slot actions a i else L.slot a i := by
  obtain ⟨clock, operator, system, accounts, L₀, L₁, S, S', hnew, hbefore, happly, hafter⟩ := h.run
  obtain ⟨rfl, hS, hfresh, hslot⟩ := ProgramAccountStorage.new_ok hL hnew
  have hsteady := ProgramAccountStorage.steady_of_keeps hbefore.keeps_storage hS
  have hnamed : S.Named := ProgramAccountStorage.new_named hnew
  obtain ⟨hS', hslot'⟩ := ProgramAccountStorage.applyStateChange_ok hapart hsteady.coherent hnamed
    (fun a => hsteady.fresh (hfresh a)) h.isForeign happly
  have hkept := hafter.keeps_storage hS'.sound
  have hslots : L₁.slot = L.slot := funext fun a => funext fun i =>
    (hsteady.slot a i).trans (hslot a i)
  refine ⟨hkept.sound, fun a i => ?_⟩
  rw [hkept.slot, hslot', hslots]

/-- **The storage of contracts** at any point of a history. -/
theorem sound_and_slot (hapart : AddressesApart) (h : History journals L) :
    L.Sound ∧ L.slot = lastWritten journals := by
  have kept {L L' : Ledger} {σ : Storage} (hL : L.Sound ∧ L.slot = σ)
      (h : L.Sound → L'.Sound ∧ ∀ a i, L'.slot a i = L.slot a i) : L'.Sound ∧ L'.slot = σ := by
    obtain ⟨hsound, hslot⟩ := hL
    obtain ⟨hsound', hslot'⟩ := h hsound
    exact ⟨hsound', hslot ▸ funext fun a => funext fun i => hslot' a i⟩
  have aside {L L' : Ledger} {σ : Storage} (hL : L.Sound ∧ L.slot = σ) (h : L.Bypasses L') :
      L'.Sound ∧ L'.slot = σ :=
    kept hL fun hsound => ⟨(h.keeps_storage hsound).sound, (h.keeps_storage hsound).slot⟩
  induction h with
  | @genesis L h =>
    have hheld : ∀ (τ : Type) [Packable τ] k, L.held τ k = none := fun τ _ k => if_neg (h k)
    refine ⟨⟨fun hk => ?_, fun hk => ?_⟩, ?_⟩
    · rw [hheld] at hk
      cases hk
    · rw [hheld] at hk
      cases hk
    · funext a i
      refine Ledger.slot_of_account_eq_none ?_
      rw [Ledger.account, hheld]
      rfl
  | other _ hL ih => exact aside ih hL.bypasses
  | purged _ hL ih => exact aside ih (hL.bypasses Runtime.Lawful.systemProgramId_ne)
  | own _ hL ih => exact aside ih hL
  | opened _ hL ih =>
    refine kept ih fun hsound => ?_
    obtain ⟨rfl, hS, -, hslot⟩ := ProgramAccountStorage.new_ok hsound hL
    exact ⟨hS.sound, hslot⟩
  | postponed _ hL ih => exact kept ih fun hsound => instructs_ok hapart hsound hL
  | @applied journals actions _ _ _ hL ih =>
    obtain ⟨hsound, hslot⟩ := ih
    obtain ⟨hsound', hslot'⟩ := instructs_ok hapart hsound hL
    refine ⟨hsound', ?_⟩
    rw [lastWritten_concat, ← hslot]
    ext a i : 2
    exact hslot' a i

end History

/-- **Contract storage is a map that self-destruct resets.** -/
theorem storage_last_written [Runtime.Lawful] (hapart : AddressesApart)
    {journals : List (List Action)} {L L' : Ledger} (hhistory : History journals L) {clock : Clock}
    {operator : AccountMeta} {system : Option AccountMeta} {accounts : List AccountMeta}
    {S : ProgramAccountStorage} {a : Address} {i v : U256}
    (hnew : ProgramAccountStorage.new clock operator system accounts L = .ok S L')
    (hread : S.storage a i = some v) : v = lastWritten journals a i := by
  obtain ⟨hsound, hslot⟩ := hhistory.sound_and_slot hapart
  obtain ⟨hledger, hS, hfresh, hkept⟩ := ProgramAccountStorage.new_ok hsound hnew
  rw [hS.storage_eq (hfresh a) hread, hledger, hkept, hslot]

end

/-! ## Two accounts

Histories to evaluate: one account of the program, at the address 1, and one who sends. -/

/-- A platform under which every Ethereum account has a key of its own, and the pages share
another. -/
@[reducible] def Platform.apart : Platform :=
  { Platform.bare with
    findProgramAddress := fun seeds _ =>
      (BitVec.ofNat 256 (16 + ofBeBytes (seeds.getLast?.getD [])), 255) }

/-- The account of the address 1. -/
def firstAccount : AccountMeta := ⟨17, false, true⟩

/-- The one who sends. -/
def sender : AccountMeta := ⟨5, true, true⟩

/-- Nothing is ours. -/
def foreignLedger : Ledger := fun _ => ⟨0, 0, .raw [], false, 0⟩

/-- The first account came to the program; nothing was ever written to it. -/
def blankLedger (len : ℕ) : Ledger :=
  foreignLedger.set firstAccount.pubkey ⟨10 ^ 9, 9, .raw (List.replicate len 0), false, 0⟩

open ProgramAccountStorage in
/-- What a slot of the first account holds after a journal. -/
def slotAfter (len : ℕ) (actions : List Action) (i v : U256) : Bool :=
  let _ := Platform.apart
  let _ := Runtime.bare
  (new ⟨0, 0⟩ sender none [firstAccount] (blankLedger len)).okAnd fun S _ =>
    (applyStateChange sender.pubkey actions S).okAnd fun readiness S' =>
      readiness = .ready && (new ⟨1, 1⟩ sender none [firstAccount] S'.ledger).okAnd fun S'' _ =>
        S''.storage 1 i = some v

theorem Platform.apart_key [Runtime] (a : Address) :
    let _ := Platform.apart
    a.key.toNat = 16 + a.toNat := by
  have ha : a.toNat < 256 ^ 20 := a.isLt.trans_eq (by norm_num)
  have hbytes : ofBeBytes a.bytes = a.toNat := by
    rw [Address.bytes, ofBeBytes_toBeBytes, Nat.mod_eq_of_lt ha]
  rw [← hbytes]
  refine Nat.mod_eq_of_lt ?_
  show 16 + ofBeBytes a.bytes < 2 ^ 256
  rw [hbytes]
  exact (Nat.add_lt_add_left ha 16).trans (by norm_num)

theorem Platform.addressesApart [Runtime] :
    let _ := Platform.apart
    AddressesApart := by
  let _ := Platform.apart
  refine ⟨fun {a b} h => ?_, fun {a b page} h => ?_⟩
  · have ha : a.key.toNat = 16 + a.toNat := Platform.apart_key a
    have hb : b.key.toNat = 16 + b.toNat := Platform.apart_key b
    rw [h, hb] at ha
    exact BitVec.eq_of_toNat_eq (Nat.add_left_cancel ha).symm
  · have ha : a.key.toNat = 16 + a.toNat := Platform.apart_key a
    have hpage : (b.pageKey page).toNat = 0 := rfl
    rw [h, hpage] at ha
    omega

theorem Runtime.bare_lawful :
    let _ := Platform.apart
    let _ := Runtime.bare
    Runtime.Lawful := by
  let _ := Platform.apart
  let _ := Runtime.bare
  refine ⟨by decide, fun _ h => ?_, fun _ h => ?_⟩
  · cases h
  · cases h

/-- **A journal that is applied makes a history**, in which the slot can be read. -/
theorem exists_history_of_slotAfter {len : ℕ} {actions : List Action} {i v : U256}
    (h : slotAfter len actions i v = true) :
    let _ := Platform.apart
    let _ := Runtime.bare
    (∀ x ∈ actions, x.IsForeign) → ∃ L L' S, History [actions] L ∧
      ProgramAccountStorage.new ⟨1, 1⟩ sender none [firstAccount] L = .ok S L' ∧
      S.storage 1 i = some v := by
  intro _ _ hforeign
  obtain ⟨S, L₀, hnew, h⟩ := Outcome.exists_of_okAnd h
  obtain ⟨readiness, S', happly, h⟩ := Outcome.exists_of_okAnd h
  obtain ⟨hready, h⟩ := Bool.and_eq_true_iff.1 h
  obtain ⟨S'', L', hnew', hread⟩ := Outcome.exists_of_okAnd h
  have hgenesis : History [] foreignLedger := .genesis fun _ => show (0 : Pubkey) ≠ 9 by decide
  have hborn : foreignLedger.Foreign (blankLedger len) := by
    have hne : (0 : Pubkey) ≠ 9 := by decide
    refine ⟨fun hk => absurd hk hne, fun {k} _ hk => ?_⟩
    by_cases hkey : k = firstAccount.pubkey
    · exact ⟨len, by rw [hkey, blankLedger, Ledger.set_self]⟩
    · rw [blankLedger, Ledger.set_of_ne hkey] at hk
      exact absurd hk hne
  refine ⟨S'.ledger, L', S'', ?_, hnew', of_decide_eq_true hread⟩
  exact History.applied (hgenesis.other hborn)
    ⟨hforeign, _, sender, none, [firstAccount], L₀, S.ledger, S, S', hnew, refl_of Ledger.Bypasses _,
      of_decide_eq_true hready ▸ happly, refl_of Ledger.Bypasses _⟩

/-- A contract is deployed and one of its slots written. -/
theorem storage_last_written_seven :
    let _ := Platform.apart
    let _ := Runtime.bare
    ∃ L L' S, History [[.evmSetCode 1 (.owned [0]), .evmSetStorage 1 3 7]] L ∧
      ProgramAccountStorage.new ⟨1, 1⟩ sender none [firstAccount] L = .ok S L' ∧
      S.storage 1 3 = some 7 ∧
      7 = lastWritten [[.evmSetCode 1 (.owned [0]), .evmSetStorage 1 3 7]] 1 3 := by
  let _ := Platform.apart
  let _ := Runtime.bare
  have hlawful : Runtime.Lawful := Runtime.bare_lawful
  obtain ⟨L, L', S, hhistory, hnew, hread⟩ :=
    exists_history_of_slotAfter
      (show slotAfter 2200 [.evmSetCode 1 (.owned [0]), .evmSetStorage 1 3 7] 3 7 = true by
        decide +kernel) (by simp [Action.IsForeign])
  exact ⟨L, L', S, hhistory, hnew, hread,
    storage_last_written Platform.addressesApart hhistory hnew hread⟩

/-- The value last written to a slot since its address was last destroyed, in the order in which the
actions were made. -/
def lastMade (actions : List Action) (a : Address) (i : U256) : U256 :=
  SlotWrites.valueAt (writesTo a (actions.rtakeWhile fun x => x.destroyed ≠ some a)) i 0

/-- **What follows a destruction is dropped with what came before it**, if it is of the same
journal: the code is there until the end and may write, but nothing of it stays. -/
theorem written_after_destroyed :
    let _ := Platform.apart
    let _ := Runtime.bare
    ∃ L L' S, History [[.evmSelfDestruct 1, .evmSetStorage 1 3 7]] L ∧
      ProgramAccountStorage.new ⟨1, 1⟩ sender none [firstAccount] L = .ok S L' ∧
      S.storage 1 3 = some 0 ∧
      lastMade [.evmSelfDestruct 1, .evmSetStorage 1 3 7] 1 3 = 7 := by
  let _ := Platform.apart
  let _ := Runtime.bare
  obtain ⟨L, L', S, hhistory, hnew, hread⟩ :=
    exists_history_of_slotAfter
      (show slotAfter 71 [.evmSelfDestruct 1, .evmSetStorage 1 3 7] 3 0 = true by
        decide +kernel) (by simp [Action.IsForeign])
  exact ⟨L, L', S, hhistory, hnew, hread, by decide⟩

end NeonEvm
