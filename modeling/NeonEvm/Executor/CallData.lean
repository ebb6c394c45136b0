import NeonEvm.Executor.Extension
import NeonEvm.Executor.Keyed
import NeonEvm.Lib.Survive

/-!
# Executor/CallData — the call data that aborts an extension

    selector(4) · word 0 · word 1 · …        slicing behind the end of the input aborts

Most arguments are read behind a check of the length, so that a short input is an error.  The selector
is not, nor are the integers of the SPL methods, the target of a withdrawal, and the arguments of an
account query.
-/

namespace NeonEvm

open Exec ExecutorState

/-- The word at `i`. -/
def wordOf (bytes : Bytes) (i : ℕ) : U256 := U256.ofBytes ((bytes.drop i).take 32)

variable {Q : Bytes → Unit → Prop} {input : Bytes} {i : ℕ}

/-! ## Slices -/

theorem survives_sliceFrom :
    (sliceFrom input i ()).Survives Q ↔ i ≤ input.length ∧ Q (input.drop i) () := by
  rw [sliceFrom, sliceOf]
  split_ifs with h
  · rw [survives_pure, List.take_of_length_le (by rw [List.length_drop]), and_iff_right h.1]
  · rw [survives_abort, false_iff]
    exact fun hi => h ⟨hi.1, le_rfl⟩

theorem survives_arrayRef {n : ℕ} :
    (arrayRef input i n ()).Survives Q ↔ i + n ≤ input.length ∧ Q ((input.drop i).take n) () := by
  rw [arrayRef, sliceOf]
  split_ifs with h
  · rw [survives_pure, Nat.add_sub_cancel_left, and_iff_right h.2]
  · rw [survives_abort, false_iff]
    exact fun hi => h ⟨Nat.le_add_right i n, hi.1⟩

theorem survives_splitAt {Q : Bytes × Bytes → Unit → Prop} :
    (splitAt input i ()).Survives Q ↔ i ≤ input.length ∧ Q (input.take i, input.drop i) () := by
  rw [splitAt]
  split_ifs with h
  · rw [survives_pure, List.splitAt_eq, and_iff_right h]
  · rw [survives_abort, false_iff]
    exact fun hi => h hi.1

theorem survives_tryUsize {a : U256} {Q : ℕ → Unit → Prop} :
    (tryUsize a ()).Survives Q ↔ (a.toNat < USIZE → Q a.toNat ()) := by
  rw [tryUsize, U256.toUsize?]
  split_ifs with h
  · exact ⟨fun hQ _ => hQ, fun hQ => hQ h⟩
  · exact ⟨fun _ hlt => absurd hlt h, fun _ => trivial⟩

theorem drop_take_zero (n : ℕ) : (input.drop 0).take n = input.take n := by rw [List.drop_zero]

/-! ## Arguments -/

namespace SplToken

variable {Q : U256 → Unit → Prop}

theorem survives_readPubkey :
    (readPubkey input ()).Survives Q ↔ (32 ≤ input.length → Q (wordOf input 0) ()) := by
  rw [readPubkey, survives_bind, survives_require, decide_eq_true_iff]
  refine forall_congr' fun h => ?_
  rw [survives_bind, survives_arrayRef, survives_pure, Nat.zero_add, and_iff_right h, wordOf]

/-- A key behind other arguments. -/
theorem survives_readPubkey_from :
    ((do readPubkey (← sliceFrom input i) : Fallible Pubkey) ()).Survives Q ↔
      i ≤ input.length ∧ (i + 32 ≤ input.length → Q (wordOf input i) ()) := by
  rw [survives_bind, survives_sliceFrom]
  refine and_congr_right fun h => ?_
  rw [survives_readPubkey, wordOf, List.drop_zero, List.length_drop, ← wordOf]
  exact imp_congr_left (by omega)

theorem survives_readSalt {Q : Bytes → Unit → Prop} :
    (readSalt input ()).Survives Q ↔ (32 ≤ input.length → Q (input.take 32) ()) := by
  rw [readSalt, survives_bind, survives_require, decide_eq_true_iff]
  refine forall_congr' fun h => ?_
  rw [survives_arrayRef, Nat.zero_add, and_iff_right h, drop_take_zero]

/-- **An integer**, which is read without a check of the length. -/
theorem survives_readU64_from {Q : ℕ → Unit → Prop} (hi : i ≤ input.length) :
    ((do readU64 (← sliceFrom input i) : Fallible ℕ) ()).Survives Q ↔
      i + 32 ≤ input.length ∧
        ((wordOf input i).toNat < USIZE → Q (wordOf input i).toNat ()) := by
  rw [survives_bind, survives_sliceFrom, and_iff_right hi, readU64, survives_bind, survives_arrayRef,
    survives_tryUsize, List.drop_zero, List.length_drop, ← wordOf]
  exact and_congr_left' (by omega)

theorem survives_readU8_from {Q : UInt8 → Unit → Prop} (hi : i ≤ input.length) :
    ((do readU8 (← sliceFrom input i) : Fallible UInt8) ()).Survives Q ↔
      i + 32 ≤ input.length ∧
        ((wordOf input i).toNat < 2 ^ 8 → Q (UInt8.ofNat (wordOf input i).toNat) ()) := by
  rw [survives_bind, survives_sliceFrom, and_iff_right hi, readU8, survives_bind, survives_arrayRef,
    List.drop_zero, List.length_drop, ← wordOf]
  refine and_congr (by omega) ?_
  split_ifs with h
  · rw [survives_pure]
    exact ⟨fun hQ _ => hQ, fun hQ => hQ h⟩
  · rw [survives_fail, true_iff]
    exact fun hlt => absurd hlt h

end SplToken

/-! ## Accounts

What a method reads of the chain may be missing too. -/

variable [Platform] {B : AccountStorage} {address : Address} {context : Context} {isStatic : Bool}
  {d : Database} {key : Pubkey}

/-- An account that a call reads: as it is in the chain, or as the queued instructions leave it. -/
inductive AccountRead where
  | mapped (key : Pubkey)
  | external (key : Pubkey)

/-- The account can be read. -/
def AccountRead.Answers (B : AccountStorage) (d : Database) : AccountRead → Prop
  | mapped key => (B.mapSolanaAccount key).isSome
  | external key => ∀ p, externalAccount B key d ≠ .panic p

/-- **When an account can be read** behind the queued instructions: it is supplied, if none of them
may write it; and otherwise all of theirs are, and none of them aborts. -/
theorem AccountRead.external_answers (hB : Keyed B.cloneSolanaAccount) (hd : Cached B d) :
    (AccountRead.external key).Answers B d ↔
      if (d.actions.flatMap Action.metas).any fun m => m.pubkey = key && m.isWritable then
        (∀ m ∈ d.actions.flatMap Action.metas, (B.cloneSolanaAccount m.pubkey).isSome) ∧
          ∀ p, emulateActions d.actions (copies B (d.actions.flatMap Action.metas)) ≠ .panic p
      else (B.cloneSolanaAccount key).isSome := by
  simp only [AccountRead.Answers, ← Outcome.survives_iff]
  rw [externalAccount, bind_run, gets_run, Outcome.ok_andThen]
  set metas := d.actions.flatMap Action.metas
  by_cases hwritable : (metas.any fun m => m.pubkey = key && m.isWritable) = true
  · rw [if_pos hwritable, hwritable, if_neg (by decide), bind_run]
    have hcollect := collectAccounts_run hd metas
    cases hc : collectAccounts B metas d with
    | ok accounts c =>
      rw [hc] at hcollect
      obtain ⟨rfl, -, hsome⟩ := hcollect
      rw [Outcome.ok_andThen, bind_run, runEmulation]
      have hkept := staysKeyed_emulateActions d.actions (copies B metas)
      cases hrun : emulateActions d.actions (copies B metas) with
      | ok u left =>
        rw [hrun] at hkept
        obtain ⟨m, hm, hkey⟩ := List.any_eq_true.1 hwritable
        have hkey : m.pubkey = key := of_decide_eq_true (Bool.and_eq_true_iff.1 hkey).1
        have hcopy : (copies B metas key).isSome := by
          rw [copies, if_pos (hkey ▸ List.mem_map_of_mem hm), ← hkey]
          exact hsome m hm
        obtain ⟨info, hinfo⟩ := Option.isSome_iff_exists.1
          ((hkept (keyed_copies hB metas)).2 key hcopy)
        rw [Outcome.ok_andThen, hinfo]
        exact ⟨fun _ => ⟨hsome, trivial⟩, fun _ => trivial⟩
      | err e left => exact ⟨fun _ => ⟨hsome, trivial⟩, fun _ => trivial⟩
      | panic p => exact ⟨False.elim, fun h => h.2⟩
    | err e c =>
      rw [hc] at hcollect
      exact hcollect.elim
    | panic p =>
      rw [hc] at hcollect
      obtain ⟨m, hm, hnone⟩ := hcollect
      exact ⟨False.elim, fun h => absurd (h.1 m hm) (by rw [hnone]; exact Bool.false_ne_true)⟩
  · rw [if_neg hwritable, Bool.eq_false_of_not_eq_true hwritable, if_pos (by decide)]
    have hcached := cachedAccount_run key hd
    cases hc : cachedAccount B key d with
    | ok info c =>
      rw [hc] at hcached
      rw [hcached.1]
      exact ⟨fun _ => rfl, fun _ => trivial⟩
    | err e c =>
      rw [hc] at hcached
      exact hcached.elim
    | panic p =>
      rw [hc] at hcached
      rw [hcached.2]
      exact ⟨False.elim, fun h => absurd h Bool.false_ne_true⟩

theorem forall_read_some {read : AccountRead} :
    (∀ r ∈ some read, r.Answers B d) ↔ read.Answers B d :=
  ⟨fun h => h read rfl, fun h _ hr => Option.some.inj hr ▸ h⟩

theorem survives_mapSolanaAccount {α : Type} {f : AccountInfo → Db α} (hf : ∀ info, Calm (f info)) :
    ((mapSolanaAccount B key >>= f) d).Survives (fun _ _ => True) ↔
      (AccountRead.mapped key).Answers B d := by
  rw [survives_bind_calm hf, mapSolanaAccount, survives_ofOption, AccountRead.Answers,
    Option.isSome_iff_exists]
  exact exists_congr fun _ => and_iff_left trivial

theorem survives_externalAccount {α : Type} {f : AccountInfo → Db α} (hf : ∀ info, Calm (f info)) :
    ((externalAccount B key >>= f) d).Survives (fun _ _ => True) ↔
      (AccountRead.external key).Answers B d := by
  rw [survives_bind_calm hf, Outcome.survives_iff, AccountRead.Answers]

omit [Platform] in
theorem calm_ofForeign {α : Type} (x : Except String α) : Calm (ofForeign x) := by
  rcases x with text | a
  · exact calm_fail _
  · exact calm_pure a

omit [Platform] in
theorem calm_queueExternalInstruction (instruction : Instruction) (seeds : List Bytes) (fee : ℕ) :
    Calm (queueExternalInstruction instruction seeds fee) := calm_modify _

/-! ## The account query -/

namespace QueryAccount

/-- The methods that read the account alone. -/
def FIELD_METHODS : List Bytes :=
  [[0xa1, 0x23, 0xc3, 0x3e], [0x02, 0x57, 0x1b, 0xe3], [0xaa, 0x8b, 0x99, 0xd2],
    [0xa9, 0xdb, 0xaf, 0x25], [0x74, 0x8f, 0x2d, 0x8a], [0x62, 0x73, 0x44, 0x8f],
    [0xc2, 0x19, 0xa7, 0x85], [0xe6, 0xbe, 0xf4, 0x88], [0xc4, 0xd3, 0x69, 0xb5],
    [0x8b, 0xb9, 0xe6, 0xf4], [0xb6, 0x4a, 0x09, 0x7e]]

/-- The methods that read a range of the account's data. -/
def DATA_METHODS : List Bytes := [[0x43, 0xca, 0x51, 0x61], [0x7d, 0xd6, 0xc1, 0xa0]]

/-- **No argument is cut off.** -/
def Complete (input : Bytes) : Prop :=
  36 ≤ input.length ∧ (input.take 4 ∈ DATA_METHODS → 100 ≤ input.length)

/-- The account that a call reads. -/
def accountRead (input : Bytes) : Option AccountRead :=
  if input.take 4 ∈ FIELD_METHODS then some (.mapped (wordOf input 4))
  else if input.take 4 ∈ DATA_METHODS ∧ (wordOf input 36).toNat < USIZE
      ∧ (wordOf input 68).toNat < USIZE ∧ (wordOf input 68).toNat ≠ 0 then
    some (.mapped (wordOf input 4))
  else none

variable {offset length : ℕ}

theorem survives_accountData :
    (accountData B key offset length d).Survives (fun _ _ => True) ↔
      (length ≠ 0 → (AccountRead.mapped key).Answers B d) := by
  rw [accountData]
  split_ifs with h
  · exact iff_of_true trivial fun hne => absurd h hne
  · rw [survives_mapSolanaAccount fun info => calm_ite (calm_pure _) (calm_fail _)]
    exact ⟨fun hr _ => hr, fun hr => hr h⟩

theorem survives_data {rest : Bytes} :
    ((do
      let arguments ← lift (arrayRef rest 0 64)
      let offset ← lift (tryUsize (U256.ofBytes (arguments.take 32)))
      let length ← lift (tryUsize (U256.ofBytes (arguments.drop 32)))
      accountData B key offset length : Db Bytes) d).Survives (fun _ _ => True) ↔
      64 ≤ rest.length ∧
        ((wordOf rest 0).toNat < USIZE → (wordOf rest 32).toNat < USIZE →
          (wordOf rest 32).toNat ≠ 0 → (AccountRead.mapped key).Answers B d) := by
  simp only [wordOf]
  rw [survives_bind, survives_lift, survives_arrayRef, Nat.zero_add]
  refine and_congr_right fun h => ?_
  rw [survives_bind, survives_lift, survives_tryUsize, List.take_take]
  refine forall_congr' fun _ => ?_
  rw [survives_bind, survives_lift, survives_tryUsize, survives_accountData, List.drop_take,
    List.drop_drop]

omit [Platform] in
theorem not_mem_data_of_field : ∀ m ∈ FIELD_METHODS, m ∉ DATA_METHODS := by decide

theorem complete_field (h : input.take 4 ∈ FIELD_METHODS) :
    (Complete input ∧ ∀ read ∈ accountRead input, read.Answers B d) ↔
      36 ≤ input.length ∧ (AccountRead.mapped (wordOf input 4)).Answers B d := by
  rw [Complete, accountRead, if_pos h, forall_read_some]
  exact and_congr_left' (and_iff_left fun hd => absurd hd (not_mem_data_of_field _ h))

theorem complete_data (h : input.take 4 ∈ DATA_METHODS) :
    (Complete input ∧ ∀ read ∈ accountRead input, read.Answers B d) ↔
      100 ≤ input.length ∧ ((wordOf input 36).toNat < USIZE → (wordOf input 68).toNat < USIZE →
        (wordOf input 68).toNat ≠ 0 → (AccountRead.mapped (wordOf input 4)).Answers B d) := by
  rw [Complete, accountRead, if_neg fun hf => not_mem_data_of_field _ hf h]
  refine and_congr ⟨fun hc => hc.2 h, fun hl => ⟨by omega, fun _ => hl⟩⟩ ?_
  split_ifs with hw
  · rw [forall_read_some]
    exact ⟨fun hr _ _ _ => hr, fun hr => hr hw.2.1 hw.2.2.1 hw.2.2.2⟩
  · exact iff_of_true (fun _ hr => nomatch hr) fun h₁ h₂ h₃ => absurd ⟨h, h₁, h₂, h₃⟩ hw

theorem complete_other (hf : input.take 4 ∉ FIELD_METHODS) (hd : input.take 4 ∉ DATA_METHODS) :
    (Complete input ∧ ∀ read ∈ accountRead input, read.Answers B d) ↔ 36 ≤ input.length := by
  rw [Complete, accountRead, if_neg hf, if_neg fun h => hd h.1]
  exact ⟨fun hc => hc.1.1, fun hl => ⟨⟨hl, fun h => absurd h hd⟩, fun _ hr => nomatch hr⟩⟩

/-- **An account query** ends when no argument is cut off and the account it reads is there. -/
theorem survives_queryAccount :
    (queryAccount B address input context isStatic d).Survives (fun _ _ => True) ↔
      (context.value = 0 → Complete input ∧ ∀ read ∈ accountRead input, read.Answers B d) := by
  rw [queryAccount, survives_bind, survives_failIf, decide_eq_false_iff_not, not_not]
  refine forall_congr' fun _ => ?_
  rw [survives_bind, survives_lift, survives_splitAt, survives_bind, survives_lift,
    survives_splitAt, ← and_assoc, List.length_drop]
  have hlen : 4 ≤ input.length ∧ 32 ≤ input.length - 4 ↔ 36 ≤ input.length := by omega
  have hkey : U256.ofBytes ((input.drop 4).take 32) = wordOf input 4 := rfl
  rw [hlen]
  simp only [hkey]
  have hread : ∀ {f : AccountInfo → Db Bytes}, (∀ info, Calm (f info)) →
      input.take 4 ∈ FIELD_METHODS →
      (36 ≤ input.length ∧
        ((mapSolanaAccount B (wordOf input 4) >>= f) d).Survives (fun _ _ => True) ↔
      Complete input ∧ ∀ read ∈ accountRead input, read.Answers B d) := by
    intro f hf hm
    rw [complete_field hm, survives_mapSolanaAccount hf]
  split_ifs with h₁ h₂ h₃ h₄ h₅ h₆ h₇ h₈
  · rw [complete_other (by rw [h₁]; decide) (by rw [h₁]; decide)]
    exact and_iff_left trivial
  · exact hread (fun _ => calm_pure _) (by rcases h₂ with h | h <;> rw [h] <;> decide)
  · exact hread (fun _ => calm_pure _) (by rcases h₃ with h | h <;> rw [h] <;> decide)
  · exact hread (fun _ => calm_pure _) (by rcases h₄ with h | h <;> rw [h] <;> decide)
  · exact hread (fun _ => calm_pure _) (by rcases h₅ with h | h <;> rw [h] <;> decide)
  · exact hread (fun _ => calm_pure _) (by rcases h₆ with h | h <;> rw [h] <;> decide)
  · rw [complete_data (by rcases h₇ with h | h <;> rw [h] <;> decide), survives_data]
    have hwords : wordOf ((input.drop 4).drop 32) 0 = wordOf input 36 ∧
        wordOf ((input.drop 4).drop 32) 32 = wordOf input 68 := by
      simp only [wordOf, List.drop_drop, and_self]
    rw [hwords.1, hwords.2, ← and_assoc, List.length_drop, List.length_drop]
    exact and_congr_left' (by omega)
  · exact hread (fun _ => calm_pure _) (by rw [h₈]; decide)
  · rw [complete_other (by simp_all [FIELD_METHODS]) (by simp_all [DATA_METHODS])]
    exact and_iff_left trivial

end QueryAccount

/-! ## The withdrawal of NEON -/

namespace NeonToken

/-- **The target is not cut off.** -/
def Complete (input : Bytes) (isStatic : Bool) : Prop :=
  4 ≤ input.length ∧
    (input.take 4 = NEON_TOKEN_METHOD_WITHDRAW_ID → isStatic = false → 36 ≤ input.length)

/-- The value is a whole amount of SPL tokens that fits an instruction. -/
def Withdrawable (value : U256) : Prop :=
  value ≠ 0 ∧ value.toNat / 10 ^ additionalDecimals ≤ U64_MAX ∧
    value.toNat % 10 ^ additionalDecimals = 0

instance (value : U256) : Decidable (Withdrawable value) := inferInstanceAs (Decidable (_ ∧ _ ∧ _))

/-- The token account that a call looks up. -/
def accountRead (B : AccountStorage) (input : Bytes) (value : U256) (isStatic : Bool) :
    Option AccountRead :=
  if input.take 4 = NEON_TOKEN_METHOD_WITHDRAW_ID ∧ isStatic = false ∧ Withdrawable value then
    some (.external (Platform.getAssociatedTokenAddress (wordOf input 4) B.neonTokenMint))
  else none

theorem calm_createTargetToken (target : Pubkey) (account : AccountInfo) :
    Calm (createTargetToken B target account) :=
  calm_ite (calm_pure ()) <| calm_bind (calm_lift (calm_ofForeign _)) fun _ =>
    calm_queueExternalInstruction _ _ _

theorem survives_withdraw {source : Address} {target : Pubkey} {value : U256} :
    (withdraw B source target value d).Survives (fun _ _ => True) ↔
      (Withdrawable value →
        (AccountRead.external (Platform.getAssociatedTokenAddress target B.neonTokenMint)).Answers
          B d) := by
  rw [withdraw, survives_bind, survives_failIf, survives_bind, survives_failIf, survives_bind,
    survives_failIf, decide_eq_false_iff_not, decide_eq_false_iff_not, decide_eq_false_iff_not,
    survives_externalAccount fun account => ?calm]
  case calm =>
    exact calm_bind (calm_createTargetToken _ _) fun _ =>
      calm_bind (calm_lift (calm_ofForeign _)) fun _ =>
        calm_bind (calm_queueExternalInstruction _ _ _) fun _ => calm_modify _
  rw [not_lt, ne_eq, not_not, Withdrawable]
  exact ⟨fun h hv => h hv.1 hv.2.1 hv.2.2, fun h h₁ h₂ h₃ => h ⟨h₁, h₂, h₃⟩⟩

/-- **A withdrawal** ends when the target is not cut off and its token account can be looked up. -/
theorem survives_neonToken :
    (neonToken B address input context isStatic d).Survives (fun _ _ => True) ↔
      (context.contract = address → Complete input isStatic ∧
        ∀ read ∈ accountRead B input context.value isStatic, read.Answers B d) := by
  rw [neonToken, survives_bind, survives_failIf, decide_eq_false_iff_not, not_not, Complete,
    accountRead]
  refine forall_congr' fun _ => ?_
  rw [survives_bind, survives_lift, survives_splitAt, and_assoc]
  refine and_congr_right fun hlen => ?_
  dsimp only
  rcases eq_or_ne (input.take 4) NEON_TOKEN_METHOD_WITHDRAW_ID with hm | hm
  · rw [if_pos hm]
    rcases isStatic with _ | _
    · rw [if_neg Bool.false_ne_true, survives_bind, survives_lift, survives_arrayRef,
        survives_bind_calm fun _ => calm_pure _, survives_withdraw, List.length_drop, Nat.zero_add]
      refine and_congr ⟨fun h _ _ => by omega, fun h => by have := h hm rfl; omega⟩ ?_
      split_ifs with hv
      · rw [forall_read_some]
        exact ⟨fun h => h hv.2.2, fun h _ => h⟩
      · exact iff_of_true (fun h => absurd ⟨hm, rfl, h⟩ hv) fun _ hr => nomatch hr
    · rw [if_pos rfl, if_neg fun h => Bool.noConfusion h.2.1]
      exact iff_of_true trivial ⟨fun _ h => Bool.noConfusion h, fun _ hr => nomatch hr⟩
  · rw [if_neg hm, if_neg fun h => hm h.1]
    exact iff_of_true trivial ⟨fun h => absurd h hm, fun _ hr => nomatch hr⟩

end NeonToken

/-! ## The token metadata -/

omit [Platform] in
theorem SplToken.calm_readPubkey : Calm (readPubkey input) := fun _ =>
  survives_readPubkey.2 fun _ => trivial

omit [Platform] in
theorem SplToken.calm_readSalt : Calm (readSalt input) := fun _ => survives_readSalt.2 fun _ => trivial

namespace Metaplex

open SplToken

/-- The methods that read the metadata of a token. -/
def READ_METHODS : List Bytes :=
  [[0xf7, 0xb6, 0x37, 0xbb], [0x23, 0x5b, 0x2b, 0x94], [0x9e, 0xd1, 0x9d, 0xdb],
    [0x69, 0x1f, 0x34, 0x31], [0x6b, 0xaa, 0x03, 0x30]]

/-- The metadata account that a call looks up. -/
def accountRead (input : Bytes) : Option AccountRead :=
  if input.take 4 ∈ READ_METHODS ∧ 36 ≤ input.length then
    some (.external (Platform.findMetadataAccount (wordOf input 4)))
  else none

omit [Platform] in
theorem saturatingAdd_of_le {a b n : ℕ} (hn : n < U64_MAX) (h : saturatingAdd a b ≤ n) :
    saturatingAdd a b = a + b := by
  rw [saturatingAdd] at h ⊢
  omega

omit [Platform] in
/-- **A text** is read behind checks of every length, whatever its offset. -/
theorem calm_readString {offsetPosition maxLength : ℕ} (hinput : input.length < U64_MAX) :
    Calm (readString input offsetPosition maxLength) := fun _ => by
  rw [readString, survives_bind, survives_require, decide_eq_true_iff]
  intro hp
  rw [survives_bind, survives_arrayRef, and_iff_right hp, survives_bind, survives_tryUsize]
  intro _
  rw [survives_bind, survives_require, decide_eq_true_iff]
  intro ho
  have hstart := saturatingAdd_of_le hinput ho
  rw [survives_bind, survives_arrayRef, and_iff_right (hstart ▸ ho), survives_bind,
    survives_tryUsize]
  intro _
  rw [survives_bind, survives_require]
  intro _
  rw [survives_bind, survives_require, decide_eq_true_iff]
  intro hs
  have hstop := saturatingAdd_of_le hinput hs
  rw [survives_bind, sliceOf, if_pos ⟨hstop ▸ Nat.le_add_right _ _, hs⟩, survives_pure]
  rcases String.fromUTF8? _ with _ | text
  · trivial
  · trivial

theorem calm_queueCreation (instruction : Pubkey → Instruction) (space : ℕ) :
    Calm (queueCreation B context instruction space) :=
  calm_bind (calm_lift (calm_ofForeign _)) fun _ => calm_queueExternalInstruction _ _ _

theorem calm_createMetadata (hinput : input.length < U64_MAX) :
    Calm (do
      let mint ← lift (readPubkey input)
      let name ← lift (readString input 32 256)
      let symbol ← lift (readString input 64 256)
      let uri ← lift (readString input 96 1024)
      createMetadata B context mint name symbol uri) :=
  calm_bind (calm_lift calm_readPubkey) fun _ =>
    calm_bind (calm_lift (calm_readString hinput)) fun _ =>
      calm_bind (calm_lift (calm_readString hinput)) fun _ =>
        calm_bind (calm_lift (calm_readString hinput)) fun _ =>
          calm_bind (calm_queueCreation _ _) fun _ => calm_pure _

theorem calm_createMasterEdition :
    Calm (do
      let mint ← lift (readPubkey input)
      let maxSupply ← lift (do Metaplex.readU64 (← sliceFrom input 32))
      createMasterEdition B context mint (some maxSupply)) := fun _ => by
  rw [survives_bind, survives_lift, survives_readPubkey]
  intro h
  refine survives_bind.2 (survives_lift.2 (survives_bind.2 (survives_sliceFrom.2 ⟨h, ?_⟩)))
  rw [Metaplex.readU64, survives_bind, survives_require, decide_eq_true_iff]
  intro h32
  rw [survives_bind, survives_arrayRef, and_iff_right (by rwa [Nat.zero_add]), survives_tryUsize]
  exact fun _ => calm_bind (calm_queueCreation _ _) (fun _ => calm_pure _) _

theorem survives_metadata {mint : Pubkey} {f : Option Metadata → Db Bytes} (hf : ∀ m, Calm (f m)) :
    ((metadata B mint >>= f) d).Survives (fun _ _ => True) ↔
      (AccountRead.external (Platform.findMetadataAccount mint)).Answers B d := by
  rw [survives_bind_calm hf, metadata, survives_externalAccount fun _ => calm_pure _]

theorem survives_readMetadata {f : Pubkey → Option Metadata → Db Bytes}
    (hf : ∀ mint m, Calm (f mint m)) (hm : input.take 4 ∈ READ_METHODS) (hlen : 4 ≤ input.length) :
    ((do
      let mint ← lift (readPubkey (input.drop 4))
      let m ← metadata B mint
      f mint m) d).Survives (fun _ _ => True) ↔
      ∀ read ∈ accountRead input, read.Answers B d := by
  rw [survives_bind, survives_lift, survives_readPubkey, accountRead, List.length_drop,
    survives_metadata (hf _)]
  have hkey : wordOf (input.drop 4) 0 = wordOf input 4 := rfl
  rw [hkey]
  split_ifs with h
  · rw [forall_read_some]
    exact ⟨fun hr => hr (by omega), fun hr _ => hr⟩
  · exact iff_of_true (fun hl => absurd ⟨hm, by omega⟩ h) fun _ hr => nomatch hr

/-- **A call for the metadata** ends when it has a selector and the account it reads is there. -/
theorem survives_metaplex (hinput : input.length < U64_MAX) :
    (metaplex B address input context isStatic d).Survives (fun _ _ => True) ↔
      (context.value = 0 → context.contract = address → 4 ≤ input.length ∧
        ∀ read ∈ accountRead input, read.Answers B d) := by
  rw [metaplex, survives_bind, survives_failIf, survives_bind, survives_failIf,
    decide_eq_false_iff_not, decide_eq_false_iff_not, not_not, not_not]
  refine forall_congr' fun _ => forall_congr' fun _ => ?_
  rw [survives_bind, survives_lift, survives_splitAt]
  refine and_congr_right fun hlen => ?_
  dsimp only
  have hother : input.take 4 ∉ READ_METHODS → ∀ read ∈ accountRead input, read.Answers B d := by
    intro hm
    rw [accountRead, if_neg fun h => hm h.1]
    exact fun _ hr => nomatch hr
  have hdrop : (input.drop 4).length < U64_MAX := by
    rw [List.length_drop]
    omega
  split_ifs with h₁ h₂ h₃ h₄ h₅ h₆ h₇ h₈ h₉
  · exact iff_of_true trivial (hother (by rw [h₁]; decide))
  · exact iff_of_true (calm_createMetadata hdrop d) (hother (by rw [h₁]; decide))
  · exact iff_of_true trivial (hother (by rw [h₃]; decide))
  · exact iff_of_true (calm_createMasterEdition d) (hother (by rw [h₃]; decide))
  · exact survives_readMetadata (fun _ _ => calm_pure _) (by rw [h₅]; decide) hlen
  · exact survives_readMetadata (fun _ _ => calm_pure _) (by rw [h₆]; decide) hlen
  · exact survives_readMetadata (fun _ _ => calm_pure _) (by rw [h₇]; decide) hlen
  · exact survives_readMetadata (fun _ _ => calm_pure _) (by rw [h₈]; decide) hlen
  · exact survives_readMetadata (fun _ _ => calm_pure _) (by rw [h₉]; decide) hlen
  · exact iff_of_true trivial (hother (by simp_all [READ_METHODS]))

end Metaplex

/-! ## The token program -/

namespace SplToken

/-- `approve`, `transfer`, `mintTo` and `burn`. -/
def AMOUNT_METHODS : List Bytes :=
  [[0xa9, 0xc1, 0x58, 0x06], [0x78, 0x42, 0x3b, 0xcf], [0xc9, 0xd0, 0xe2, 0xfd],
    [0xc0, 0x67, 0xee, 0xbb]]

/-- The two `initializeMint`s. -/
def MINT_METHODS : List Bytes := [[0xb1, 0x1e, 0xcc, 0x50], [0xc3, 0xf3, 0xf2, 0xf2]]

/-- `isSystemAccount`, `getAccount` and `getMint`. -/
def LOOKUP_METHODS : List Bytes :=
  [[0x6d, 0xa9, 0xde, 0x75], [0xd1, 0xde, 0x50, 0x11], [0xa2, 0xce, 0x9c, 0x1f]]

/-- Where a method reads an integer without a check of the length. -/
def integerAt (selector : Bytes) : Option ℕ :=
  if selector ∈ MINT_METHODS then some 32
  else if selector ∈ AMOUNT_METHODS then some 64
  else if selector = [0x7c, 0x0e, 0xb8, 0x10] then some 96
  else none

/-- The length of the arguments behind which a method looks for the account that it is to create. -/
def createdBehind (selector : Bytes) : Option ℕ :=
  if selector = [0xb1, 0x1e, 0xcc, 0x50] ∨ selector = [0xda, 0xa1, 0x2c, 0x5c] then some 64
  else if selector = [0xfc, 0x86, 0xb7, 0x17] then some 96
  else if selector = [0xc3, 0xf3, 0xf2, 0xf2] then some 128
  else none

/-- The account that a seed stands for. -/
def createdAccount (B : AccountStorage) (context : Context) (args : Bytes) : Pubkey :=
  (Platform.findProgramAddress (contractDataSeeds context (args.take 32)) B.programId).1

/-- The account that a call looks up. -/
def accountRead (B : AccountStorage) (context : Context) (isStatic : Bool)
    (selector args : Bytes) : Option AccountRead :=
  match createdBehind selector with
  | some n =>
    if isStatic = false ∧ n ≤ args.length ∧
        (selector ∈ MINT_METHODS → (wordOf args 32).toNat < 2 ^ 8) then
      some (.external (createdAccount B context args))
    else none
  | none =>
    if selector ∈ LOOKUP_METHODS ∧ 32 ≤ args.length then some (.external (wordOf args 0)) else none

/-- **No integer is cut off** — unless a check before it fails already. -/
def Complete (isStatic : Bool) (selector args : Bytes) : Prop :=
  isStatic = false → ∀ i ∈ integerAt selector, i ≤ args.length → i + 32 ≤ args.length

end SplToken

end NeonEvm
