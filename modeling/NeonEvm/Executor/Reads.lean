import NeonEvm.Executor.Grows

/-!
# Executor/Reads — a read of the database depends on its journal alone

The cache holds nothing but what the backend has, so two databases with one journal answer every
read alike, whatever either has cached; an account of another program is the emulation of the
journal on the backend's copies.
-/

namespace NeonEvm

open Exec

namespace ExecutorState

variable {B : AccountStorage} {P : List Action → Prop} {d d' : Database}

/-- The cache holds copies of the backend's accounts only. -/
def Cached (B : AccountStorage) (d : Database) : Prop :=
  ∀ key info, d.cache.solanaAccounts key = some info → B.cloneSolanaAccount key = some info

theorem cached_new (B : AccountStorage) : Cached B (ExecutorState.new B).toDatabase := nofun

theorem Grows.cached_of (h : Grows B P d d') (hd : Cached B d) : Cached B d' := fun key info hi =>
  (h.cached key info hi).elim (hd key info) id

/-- Two databases with one journal. -/
structure OneJournal (B : AccountStorage) (d d' : Database) : Prop where
  actions : d.actions = d'.actions
  left : Cached B d
  right : Cached B d'

/-- **Every read of one database is a read of the other.** -/
structure SameReads [Platform] (B : AccountStorage) (d d' : Database) : Prop where
  nonce : ∀ a, (nonce B a d).Alike (fun _ _ => True) (ExecutorState.nonce B a d')
  balance : ∀ a, (balance B a d).Alike (fun _ _ => True) (ExecutorState.balance B a d')
  code : ∀ a, (code B a d).Alike (fun _ _ => True) (ExecutorState.code B a d')
  codeSize : ∀ a, (codeSize B a d).Alike (fun _ _ => True) (ExecutorState.codeSize B a d')
  codeHash : ∀ a, (codeHash B a d).Alike (fun _ _ => True) (ExecutorState.codeHash B a d')
  storage : ∀ a i, (storage B a i d).Alike (fun _ _ => True) (ExecutorState.storage B a i d')
  externalAccount : ∀ key,
    (externalAccount B key d).Alike (fun _ _ => True) (ExecutorState.externalAccount B key d')

/-! ## The reads of contracts -/

theorem alike_actions : Alike (OneJournal B)
    (gets Database.actions : Db (List Action)) (gets Database.actions) :=
  alike_gets fun _ _ h => h.actions

theorem alike_nonce (a : Address) : Alike (OneJournal B) (nonce B a) (nonce B a) :=
  alike_bind (alike_ofOption _ _) fun _ => alike_bind alike_actions fun _ => alike_ofExcept _

theorem alike_balance (a : Address) : Alike (OneJournal B) (balance B a) (balance B a) :=
  alike_bind (alike_ofOption _ _) fun _ => alike_bind alike_actions fun _ => alike_ofExcept _

theorem alike_code (a : Address) : Alike (OneJournal B) (code B a) (code B a) :=
  alike_bind alike_actions fun acts => by
    cases Overlay.code a acts with
    | some code => exact alike_pure code
    | none => exact alike_ofOption _ _

theorem alike_codeSize (a : Address) : Alike (OneJournal B) (codeSize B a) (codeSize B a) :=
  alike_ite (fun _ => alike_pure _) fun _ => alike_bind alike_actions fun acts => by
    cases Overlay.code a acts with
    | some code => exact alike_pure _
    | none => exact alike_ofOption _ _

theorem alike_codeHash [Platform] (a : Address) :
    Alike (OneJournal B) (codeHash B a) (codeHash B a) :=
  alike_bind alike_actions fun acts => by
    cases Overlay.code a acts with
    | some code => exact alike_pure _
    | none => exact alike_ofOption _ _

theorem alike_storage (a : Address) (i : U256) :
    Alike (OneJournal B) (storage B a i) (storage B a i) :=
  alike_bind alike_actions fun acts => by
    cases Overlay.storage a i acts with
    | some value => exact alike_pure value
    | none => exact alike_ofOption _ _

/-! ## The reads of other programs' accounts -/

/-- What is read for a key is the backend's copy, whether it was cached or not. -/
theorem cachedAccount_run (key : Pubkey) (hd : Cached B d) :
    (cachedAccount B key d).Sat
      (fun info d' => B.cloneSolanaAccount key = some info ∧ d'.actions = d.actions ∧ Cached B d')
      (fun _ _ => False) fun p => p = .account ∧ B.cloneSolanaAccount key = none := by
  have hgrows := moves_cachedAccount (B := B) (P := fun _ => False) key d
  unfold cachedAccount at hgrows ⊢
  simp only [bind_run, gets_run, Outcome.ok_andThen] at hgrows ⊢
  cases hc : d.cache.solanaAccounts key with
  | some info => exact ⟨hd key info hc, rfl, hd⟩
  | none =>
    rw [hc] at hgrows
    cases hB : B.cloneSolanaAccount key with
    | none => exact ⟨rfl, rfl⟩
    | some info =>
      rw [hB] at hgrows
      exact ⟨rfl, rfl, Grows.cached_of hgrows hd⟩

theorem alike_cachedAccount (key : Pubkey) :
    Alike (OneJournal B) (cachedAccount B key) (cachedAccount B key) := by
  intro d d' h
  have hd := cachedAccount_run key h.left
  have hd' := cachedAccount_run key h.right
  cases hx : cachedAccount B key d with
  | err e _ => simp [hx, Outcome.Sat] at hd
  | ok info c =>
    rw [hx] at hd
    cases hy : cachedAccount B key d' with
    | err e _ => simp [hy, Outcome.Sat] at hd'
    | ok info' c' =>
      rw [hy] at hd'
      refine ⟨Option.some_inj.1 (hd.1.symm.trans hd'.1), ?_, hd.2.2, hd'.2.2⟩
      exact hd.2.1.trans (h.actions.trans hd'.2.1.symm)
    | panic p =>
      rw [hy] at hd'
      exact absurd (hd.1.symm.trans hd'.2) (by simp)
  | panic p =>
    rw [hx] at hd
    cases hy : cachedAccount B key d' with
    | err e _ => simp [hy, Outcome.Sat] at hd'
    | ok info' c' =>
      rw [hy] at hd'
      exact absurd (hd'.1.symm.trans hd.2) (by simp)
    | panic p' =>
      rw [hy] at hd'
      exact hd.1.trans hd'.1.symm

theorem alike_collectAccounts (metas : List AccountMeta) :
    Alike (OneJournal B) (collectAccounts B metas) (collectAccounts B metas) :=
  alike_foldl (fun _ _ => alike_bind (alike_cachedAccount _) fun _ => alike_pure _) _ _

theorem alike_runEmulation {α : Type} (accounts : SolanaAccounts) (x : Emulation α) :
    Alike (OneJournal B) (runEmulation accounts x) (runEmulation accounts x) := fun d d' h => by
  unfold runEmulation
  cases x accounts with
  | ok _ accounts => exact ⟨rfl, h⟩
  | err e _ => exact ⟨rfl, h⟩
  | panic p => rfl

/-- **The emulation is replayed from the backend's copies.** -/
theorem alike_externalAccount [Platform] (key : Pubkey) :
    Alike (OneJournal B) (externalAccount B key) (externalAccount B key) :=
  alike_bind alike_actions fun _ =>
    alike_ite (fun _ => alike_cachedAccount _) fun _ =>
      alike_bind (alike_collectAccounts _) fun _ =>
        alike_bind (alike_runEmulation _ _) fun _ => alike_ofOption _ _

/-- **One journal, the same reads.** -/
theorem OneJournal.sameReads [Platform] (h : OneJournal B d d') : SameReads B d d' where
  nonce a := (alike_nonce a _ _ h).mono fun _ _ _ => trivial
  balance a := (alike_balance a _ _ h).mono fun _ _ _ => trivial
  code a := (alike_code a _ _ h).mono fun _ _ _ => trivial
  codeSize a := (alike_codeSize a _ _ h).mono fun _ _ _ => trivial
  codeHash a := (alike_codeHash a _ _ h).mono fun _ _ _ => trivial
  storage a i := (alike_storage a i _ _ h).mono fun _ _ _ => trivial
  externalAccount key := (alike_externalAccount key _ _ h).mono fun _ _ _ => trivial

end ExecutorState

end NeonEvm
