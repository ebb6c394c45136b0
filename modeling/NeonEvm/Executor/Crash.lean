import NeonEvm.Executor.CallData
import NeonEvm.Types.SignedMessage

/-!
# Executor/Crash — exactly which calls crash an extension

    complete and its account there  ↔  an answer or an error
-/

namespace NeonEvm

open Exec ExecutorState

variable [Platform] {B : AccountStorage} {address : Address} {input : Bytes} {context : Context}
  {isStatic : Bool} {d : Database} {key : Pubkey} {i : ℕ}

/-! ## The token program -/

namespace SplToken

section Methods

variable {selector args : Bytes} {f : Pubkey → Pubkey → ℕ → Db Bytes}

/-! ### What a method needs -/

theorem needs_nothing (hi : integerAt selector = none) (hc : createdBehind selector = none)
    (hl : selector ∉ LOOKUP_METHODS) :
    Complete isStatic selector args ∧
      ∀ read ∈ accountRead B context isStatic selector args, read.Answers B d := by
  rw [Complete, accountRead, hi, hc]
  dsimp only
  rw [if_neg fun h => hl h.1]
  exact ⟨fun _ _ h => (nomatch h), fun _ h => (nomatch h)⟩

theorem needs_nothing_static (hl : selector ∉ LOOKUP_METHODS) :
    Complete true selector args ∧
      ∀ read ∈ accountRead B context true selector args, read.Answers B d := by
  refine ⟨fun h => Bool.noConfusion h, ?_⟩
  rw [accountRead]
  rcases createdBehind selector with _ | n
  · dsimp only
    rw [if_neg fun h => hl h.1]
    exact fun _ h => (nomatch h)
  · dsimp only
    rw [if_neg fun h => Bool.noConfusion h.1]
    exact fun _ h => (nomatch h)

theorem needs_integer (hi : integerAt selector = some i) (hc : createdBehind selector = none)
    (hl : selector ∉ LOOKUP_METHODS) :
    (Complete false selector args ∧
      ∀ read ∈ accountRead B context false selector args, read.Answers B d) ↔
      (i ≤ args.length → i + 32 ≤ args.length) := by
  rw [Complete, accountRead, hi, hc]
  dsimp only
  rw [if_neg fun h => hl h.1]
  exact ⟨fun h => h.1 rfl i rfl, fun h =>
    ⟨fun _ _ hj => Option.some.inj hj ▸ h, fun _ h => (nomatch h)⟩⟩

theorem needs_lookup (hi : integerAt selector = none) (hc : createdBehind selector = none)
    (hl : selector ∈ LOOKUP_METHODS) :
    (Complete isStatic selector args ∧
      ∀ read ∈ accountRead B context isStatic selector args, read.Answers B d) ↔
      (32 ≤ args.length → (AccountRead.external (wordOf args 0)).Answers B d) := by
  rw [Complete, accountRead, hi, hc, and_iff_right fun _ _ h => (nomatch h)]
  dsimp only
  split_ifs with h
  · rw [forall_read_some]
    exact ⟨fun hr _ => hr, fun hr => hr h.2⟩
  · exact iff_of_true (fun _ hr => nomatch hr) fun h32 => absurd ⟨hl, h32⟩ h

theorem needs_account {n : ℕ} (hi : integerAt selector = none)
    (hc : createdBehind selector = some n) (hm : selector ∉ MINT_METHODS) :
    (Complete false selector args ∧
      ∀ read ∈ accountRead B context false selector args, read.Answers B d) ↔
      (n ≤ args.length → (AccountRead.external (createdAccount B context args)).Answers B d) := by
  rw [Complete, accountRead, hi, hc, and_iff_right fun _ _ h => (nomatch h)]
  dsimp only
  split_ifs with h
  · rw [forall_read_some]
    exact ⟨fun hr _ => hr, fun hr => hr h.2.1⟩
  · exact iff_of_true (fun _ hr => nomatch hr) fun hn => absurd ⟨rfl, hn, fun h => absurd h hm⟩ h

theorem needs_mint {n : ℕ} (hi : integerAt selector = some i)
    (hc : createdBehind selector = some n) (hm : selector ∈ MINT_METHODS) :
    (Complete false selector args ∧
      ∀ read ∈ accountRead B context false selector args, read.Answers B d) ↔
      (i ≤ args.length → i + 32 ≤ args.length) ∧ (n ≤ args.length →
        (wordOf args 32).toNat < 2 ^ 8 →
          (AccountRead.external (createdAccount B context args)).Answers B d) := by
  rw [Complete, accountRead, hi, hc]
  refine and_congr ⟨fun h => h rfl i rfl, fun h _ _ hj => Option.some.inj hj ▸ h⟩ ?_
  dsimp only
  split_ifs with h
  · rw [forall_read_some]
    exact ⟨fun hr _ _ => hr, fun hr => hr h.2.1 (h.2.2 hm)⟩
  · exact iff_of_true (fun _ hr => nomatch hr) fun hn hw => absurd ⟨rfl, hn, fun _ => hw⟩ h

/-! ### What a method does -/

omit [Platform] in
theorem calm_queueSigned (instruction : Pubkey → Except String Instruction) :
    Calm (queueSigned B context instruction) :=
  calm_bind (calm_lift (calm_ofForeign _)) fun _ =>
    calm_bind (calm_queueExternalInstruction _ _ _) fun _ => calm_pure _

omit [Platform] in
theorem calm_key {f : Pubkey → Db Bytes} (hf : ∀ a, Calm (f a)) :
    Calm (do f (← lift (readPubkey args))) :=
  calm_bind (calm_lift calm_readPubkey) hf

omit [Platform] in
theorem calm_keys {f : Pubkey → Pubkey → Db Bytes} (hf : ∀ a b, Calm (f a b)) :
    Calm (do
      let a ← lift (readPubkey args)
      let b ← lift (do readPubkey (← sliceFrom args 32))
      f a b) := fun _ => by
  rw [survives_bind, survives_lift, survives_readPubkey]
  intro h
  rw [survives_bind, survives_lift, survives_readPubkey_from]
  exact ⟨h, fun _ => hf _ _ _⟩

omit [Platform] in
theorem survives_amount (hf : ∀ a b n, Calm (f a b n)) :
    ((do
      let a ← lift (readPubkey args)
      let b ← lift (do readPubkey (← sliceFrom args 32))
      let n ← lift (do readU64 (← sliceFrom args 64))
      f a b n) d).Survives (fun _ _ => True) ↔ (64 ≤ args.length → 64 + 32 ≤ args.length) := by
  rw [survives_bind, survives_lift, survives_readPubkey]
  refine ⟨fun h h64 => ?_, fun h h32 => ?_⟩
  · have hkey := (survives_readPubkey_from.1 (survives_lift.1 (survives_bind.1 (h (by omega))))).2 h64
    exact ((survives_readU64_from h64).1 (survives_lift.1 (survives_bind.1 hkey))).1
  · refine survives_bind.2 (survives_lift.2 (survives_readPubkey_from.2 ⟨h32, fun h64 => ?_⟩))
    exact survives_bind.2 (survives_lift.2 ((survives_readU64_from h64).2
      ⟨h h64, fun _ => hf _ _ _ _⟩))

omit [Platform] in
theorem survives_transferWithSeed {f : Bytes → Pubkey → Pubkey → ℕ → Db Bytes}
    (hf : ∀ a b c n, Calm (f a b c n)) :
    ((do
      let a ← lift (readSalt args)
      let b ← lift (do readPubkey (← sliceFrom args 32))
      let c ← lift (do readPubkey (← sliceFrom args 64))
      let n ← lift (do readU64 (← sliceFrom args 96))
      f a b c n) d).Survives (fun _ _ => True) ↔ (96 ≤ args.length → 96 + 32 ≤ args.length) := by
  rw [survives_bind, survives_lift, survives_readSalt]
  refine ⟨fun h h96 => ?_, fun h h32 => ?_⟩
  · have hb := (survives_readPubkey_from.1 (survives_lift.1 (survives_bind.1 (h (by omega))))).2
      (by omega)
    have hc := (survives_readPubkey_from.1 (survives_lift.1 (survives_bind.1 hb))).2 h96
    exact ((survives_readU64_from h96).1 (survives_lift.1 (survives_bind.1 hc))).1
  · refine survives_bind.2 (survives_lift.2 (survives_readPubkey_from.2 ⟨h32, fun h64 => ?_⟩))
    refine survives_bind.2 (survives_lift.2 (survives_readPubkey_from.2 ⟨h64, fun h96 => ?_⟩))
    exact survives_bind.2 (survives_lift.2 ((survives_readU64_from h96).2
      ⟨h h96, fun _ => hf _ _ _ _ _⟩))

theorem calm_createAccount (account : AccountInfo) (space : ℕ) (seeds : List Bytes) :
    Calm (createAccount B account space seeds) :=
  calm_bind (calm_lift (calm_ofForeign _)) fun _ =>
    calm_bind (calm_ite (calm_queueExternalInstruction _ _ _) (calm_pure ())) fun _ =>
      calm_bind (calm_queueExternalInstruction _ _ _) fun _ => calm_queueExternalInstruction _ _ _

theorem survives_createSeededAccount {space : ℕ} {seed : Bytes} {f : Pubkey → Db Bytes}
    (hf : ∀ a, Calm (f a)) :
    ((createSeededAccount B context seed space >>= f) d).Survives (fun _ _ => True) ↔
      (AccountRead.external
        (Platform.findProgramAddress (contractDataSeeds context seed) B.programId).1).Answers B d := by
  rw [survives_bind_calm hf, createSeededAccount]
  exact survives_externalAccount fun _ => calm_bind (calm_failIf _ _) fun _ =>
    calm_bind (calm_createAccount _ _ _) fun _ => calm_pure _

theorem survives_initializeMint {seed : Bytes} {decimals : UInt8}
    {mintAuthority freezeAuthority : Option Pubkey} :
    (initializeMint B context seed decimals mintAuthority freezeAuthority d).Survives
        (fun _ _ => True) ↔
      (AccountRead.external
        (Platform.findProgramAddress (contractDataSeeds context seed) B.programId).1).Answers B d :=
  survives_createSeededAccount fun _ => calm_bind (calm_lift (calm_ofForeign _)) fun _ =>
    calm_bind (calm_queueExternalInstruction _ _ _) fun _ => calm_pure _

theorem survives_initializeAccount {seed : Bytes} {mint : Pubkey} {owner : Option Pubkey} :
    (initializeAccount B context seed mint owner d).Survives (fun _ _ => True) ↔
      (AccountRead.external
        (Platform.findProgramAddress (contractDataSeeds context seed) B.programId).1).Answers B d :=
  survives_createSeededAccount fun _ => calm_bind (calm_lift (calm_ofForeign _)) fun _ =>
    calm_bind (calm_queueExternalInstruction _ _ _) fun _ => calm_pure _

theorem survives_readState {α : Type} {unpack : Bytes → Except String α} {default : α}
    {f : α → Db Bytes} (hf : ∀ a, Calm (f a)) :
    ((readState B unpack default key >>= f) d).Survives (fun _ _ => True) ↔
      (AccountRead.external key).Answers B d := by
  rw [survives_bind_calm hf, readState]
  exact survives_externalAccount fun _ => calm_ite (calm_lift (calm_ofForeign _))
    (calm_ite (calm_pure _) (calm_fail _))

theorem survives_lookup {f : Pubkey → Db Bytes}
    (hf : ∀ key, (f key d).Survives (fun _ _ => True) ↔ (AccountRead.external key).Answers B d) :
    ((do f (← lift (readPubkey args))) d).Survives (fun _ _ => True) ↔
      (32 ≤ args.length → (AccountRead.external (wordOf args 0)).Answers B d) := by
  rw [survives_bind, survives_lift, survives_readPubkey, hf]

omit [Platform] in
theorem survives_saltByte {f : Bytes → UInt8 → Db Bytes} {P : Prop}
    (hf : 64 ≤ args.length → ∀ n, (f (args.take 32) n d).Survives (fun _ _ => True) ↔ P) :
    ((do
      let seed ← lift (readSalt args)
      let decimals ← lift (do readU8 (← sliceFrom args 32))
      f seed decimals) d).Survives (fun _ _ => True) ↔
      (32 ≤ args.length → 32 + 32 ≤ args.length) ∧
        (64 ≤ args.length → (wordOf args 32).toNat < 2 ^ 8 → P) := by
  rw [survives_bind, survives_lift, survives_readSalt]
  refine ⟨fun h => ⟨fun h32 => ?_, fun h64 hw => ?_⟩, fun h h32 => ?_⟩
  · exact ((survives_readU8_from h32).1 (survives_lift.1 (survives_bind.1 (h h32)))).1
  · have h32 : 32 ≤ args.length := by omega
    exact (hf h64 _).1
      (((survives_readU8_from h32).1 (survives_lift.1 (survives_bind.1 (h h32)))).2 hw)
  · have h64 := h.1 h32
    exact survives_bind.2 (survives_lift.2 ((survives_readU8_from h32).2
      ⟨h64, fun hw => (hf h64 _).2 (h.2 h64 hw)⟩))

omit [Platform] in
theorem survives_saltKey {f : Bytes → Pubkey → Db Bytes} {P : Prop}
    (hf : 64 ≤ args.length → ∀ a, (f (args.take 32) a d).Survives (fun _ _ => True) ↔ P) :
    ((do
      let seed ← lift (readSalt args)
      let a ← lift (do readPubkey (← sliceFrom args 32))
      f seed a) d).Survives (fun _ _ => True) ↔ (64 ≤ args.length → P) := by
  rw [survives_bind, survives_lift, survives_readSalt]
  refine ⟨fun h h64 => ?_, fun h h32 => ?_⟩
  · exact (hf h64 _).1
      ((survives_readPubkey_from.1 (survives_lift.1 (survives_bind.1 (h (by omega))))).2 h64)
  · exact survives_bind.2 (survives_lift.2 (survives_readPubkey_from.2
      ⟨h32, fun h64 => (hf h64 _).2 (h h64)⟩))

omit [Platform] in
theorem survives_key_from {f : Pubkey → Db Bytes} {P : Prop} (hi : i ≤ args.length)
    (hf : i + 32 ≤ args.length → ∀ a, (f a d).Survives (fun _ _ => True) ↔ P) :
    ((do
      let a ← lift (do readPubkey (← sliceFrom args i))
      f a) d).Survives (fun _ _ => True) ↔ (i + 32 ≤ args.length → P) := by
  rw [survives_bind, survives_lift, survives_readPubkey_from, and_iff_right hi]
  exact forall_congr' fun h => hf h _

/-! ### Dispatch -/

/-- A method that refuses static calls needs what it needs in the others. -/
theorem refuses_static {x : Db Bytes} {e : Error} (hl : selector ∉ LOOKUP_METHODS)
    (h : (x d).Survives (fun _ _ => True) ↔ Complete false selector args ∧
      ∀ read ∈ accountRead B context false selector args, read.Answers B d) :
    ((if isStatic then fail e else x) d).Survives (fun _ _ => True) ↔
      Complete isStatic selector args ∧
        ∀ read ∈ accountRead B context isStatic selector args, read.Answers B d := by
  rcases isStatic with _ | _
  · exact h
  · exact iff_of_true trivial (needs_nothing_static hl)

theorem calm_transferWithSeed {seed : Bytes} {source target : Pubkey} {amount : ℕ} :
    Calm (transferWithSeed B context seed source target amount) :=
  calm_bind (calm_lift (calm_ofForeign _)) fun _ =>
    calm_bind (calm_queueExternalInstruction _ _ _) fun _ => calm_pure _

theorem survives_authorities :
    ((do
      let seed ← lift (readSalt args)
      let decimals ← lift (do readU8 (← sliceFrom args 32))
      let mintAuthority ← lift (do readPubkey (← sliceFrom args 64))
      let freezeAuthority ← lift (do readPubkey (← sliceFrom args 96))
      initializeMint B context seed decimals (some mintAuthority) (some freezeAuthority)) d).Survives
        (fun _ _ => True) ↔
      (32 ≤ args.length → 32 + 32 ≤ args.length) ∧ (128 ≤ args.length →
        (wordOf args 32).toNat < 2 ^ 8 →
          (AccountRead.external (createdAccount B context args)).Answers B d) := by
  rw [survives_saltByte fun h64 _ => survives_key_from h64 fun h96 _ =>
    survives_key_from h96 fun _ _ => survives_initializeMint]
  refine and_congr_right fun _ => ⟨fun h h128 hw => ?_, fun h _ hw _ h128 => h h128 hw⟩
  exact h (by omega) hw (by omega) h128

theorem survives_owner :
    ((do
      let seed ← lift (readSalt args)
      let mint ← lift (do readPubkey (← sliceFrom args 32))
      let owner ← lift (do readPubkey (← sliceFrom args 64))
      initializeAccount B context seed mint (some owner)) d).Survives (fun _ _ => True) ↔
      (96 ≤ args.length →
        (AccountRead.external (createdAccount B context args)).Answers B d) := by
  rw [survives_saltKey fun h64 _ => survives_key_from h64 fun _ _ => survives_initializeAccount]
  exact ⟨fun h h96 => h (by omega) h96, fun h _ h96 => h h96⟩

end Methods

/-- **A call of the token program** ends when no integer is cut off and the account it looks up is
there. -/
theorem survives_splToken :
    (splToken B address input context isStatic d).Survives (fun _ _ => True) ↔
      (context.value = 0 → context.contract = address → 4 ≤ input.length ∧
        Complete isStatic (input.take 4) (input.drop 4) ∧
        ∀ read ∈ accountRead B context isStatic (input.take 4) (input.drop 4),
          read.Answers B d) := by
  rw [splToken, survives_bind, survives_failIf, survives_bind, survives_failIf,
    decide_eq_false_iff_not, decide_eq_false_iff_not, not_not, not_not]
  refine forall_congr' fun _ => forall_congr' fun _ => ?_
  rw [survives_bind, survives_lift, survives_splitAt]
  refine and_congr_right fun _ => ?_
  dsimp only
  generalize input.take 4 = selector, input.drop 4 = args
  rcases eq_or_ne selector [0xb1, 0x1e, 0xcc, 0x50] with rfl | h₁
  · rw [if_pos rfl]
    refine refuses_static (by decide) ?_
    rw [needs_mint rfl rfl (by decide)]
    exact survives_saltByte fun _ _ => survives_initializeMint
  rw [if_neg h₁]
  rcases eq_or_ne selector [0xc3, 0xf3, 0xf2, 0xf2] with rfl | h₂
  · rw [if_pos rfl]
    refine refuses_static (by decide) ?_
    rw [needs_mint rfl rfl (by decide)]
    exact survives_authorities
  rw [if_neg h₂]
  rcases eq_or_ne selector [0xda, 0xa1, 0x2c, 0x5c] with rfl | h₃
  · rw [if_pos rfl]
    refine refuses_static (by decide) ?_
    rw [needs_account rfl rfl (by decide)]
    exact survives_saltKey fun _ _ => survives_initializeAccount
  rw [if_neg h₃]
  rcases eq_or_ne selector [0xfc, 0x86, 0xb7, 0x17] with rfl | h₄
  · rw [if_pos rfl]
    refine refuses_static (by decide) ?_
    rw [needs_account rfl rfl (by decide)]
    exact survives_owner
  rw [if_neg h₄]
  rcases eq_or_ne selector [0x57, 0x82, 0xa0, 0x43] with rfl | h₅
  · rw [if_pos rfl]
    exact refuses_static (by decide) (iff_of_true (calm_key (fun _ => calm_queueSigned _) d)
      (needs_nothing rfl rfl (by decide)))
  rw [if_neg h₅]
  rcases eq_or_ne selector [0xa9, 0xc1, 0x58, 0x06] with rfl | h₆
  · rw [if_pos rfl]
    refine refuses_static (by decide) ?_
    rw [needs_integer rfl rfl (by decide)]
    exact survives_amount fun _ _ _ => calm_queueSigned _
  rw [if_neg h₆]
  rcases eq_or_ne selector [0xb7, 0x5c, 0x7d, 0xc6] with rfl | h₇
  · rw [if_pos rfl]
    exact refuses_static (by decide) (iff_of_true (calm_key (fun _ => calm_queueSigned _) d)
      (needs_nothing rfl rfl (by decide)))
  rw [if_neg h₇]
  rcases eq_or_ne selector [0x78, 0x42, 0x3b, 0xcf] with rfl | h₈
  · rw [if_pos rfl]
    refine refuses_static (by decide) ?_
    rw [needs_integer rfl rfl (by decide)]
    exact survives_amount fun _ _ _ => calm_queueSigned _
  rw [if_neg h₈]
  rcases eq_or_ne selector [0x7c, 0x0e, 0xb8, 0x10] with rfl | h₉
  · rw [if_pos rfl]
    refine refuses_static (by decide) ?_
    rw [needs_integer rfl rfl (by decide)]
    exact survives_transferWithSeed fun _ _ _ _ => calm_transferWithSeed
  rw [if_neg h₉]
  rcases eq_or_ne selector [0xc9, 0xd0, 0xe2, 0xfd] with rfl | h₁₀
  · rw [if_pos rfl]
    refine refuses_static (by decide) ?_
    rw [needs_integer rfl rfl (by decide)]
    exact survives_amount fun _ _ _ => calm_queueSigned _
  rw [if_neg h₁₀]
  rcases eq_or_ne selector [0xc0, 0x67, 0xee, 0xbb] with rfl | h₁₁
  · rw [if_pos rfl]
    refine refuses_static (by decide) ?_
    rw [needs_integer rfl rfl (by decide)]
    exact survives_amount fun _ _ _ => calm_queueSigned _
  rw [if_neg h₁₁]
  rcases eq_or_ne selector [0x44, 0xef, 0x32, 0x44] with rfl | h₁₂
  · rw [if_pos rfl]
    exact refuses_static (by decide) (iff_of_true (calm_keys (fun _ _ => calm_queueSigned _) d)
      (needs_nothing rfl rfl (by decide)))
  rw [if_neg h₁₂]
  rcases eq_or_ne selector [0x3d, 0x71, 0x8c, 0x9a] with rfl | h₁₃
  · rw [if_pos rfl]
    exact refuses_static (by decide) (iff_of_true (calm_keys (fun _ _ => calm_queueSigned _) d)
      (needs_nothing rfl rfl (by decide)))
  rw [if_neg h₁₃]
  rcases eq_or_ne selector [0xeb, 0x7d, 0xa7, 0x8c] with rfl | h₁₄
  · rw [if_pos rfl]
    exact iff_of_true (calm_bind (calm_lift calm_readSalt) (fun _ => calm_pure _) d)
      (needs_nothing rfl rfl (by decide))
  rw [if_neg h₁₄]
  rcases eq_or_ne selector [0x6d, 0xa9, 0xde, 0x75] with rfl | h₁₅
  · rw [if_pos rfl]
    rw [needs_lookup rfl rfl (by decide)]
    exact survives_lookup fun _ => survives_externalAccount fun _ => calm_pure _
  rw [if_neg h₁₅]
  rcases eq_or_ne selector [0xd1, 0xde, 0x50, 0x11] with rfl | h₁₆
  · rw [if_pos rfl]
    rw [needs_lookup rfl rfl (by decide)]
    exact survives_lookup fun _ => survives_readState fun _ => calm_pure _
  rw [if_neg h₁₆]
  rcases eq_or_ne selector [0xa2, 0xce, 0x9c, 0x1f] with rfl | h₁₇
  · rw [if_pos rfl]
    rw [needs_lookup rfl rfl (by decide)]
    exact survives_lookup fun _ => survives_readState fun _ => calm_pure _
  rw [if_neg h₁₇]
  refine iff_of_true trivial (needs_nothing ?_ ?_ ?_)
  · simp_all [integerAt, MINT_METHODS, AMOUNT_METHODS]
  · simp_all [createdBehind]
  · simp_all [LOOKUP_METHODS]

end SplToken

/-! ## Every extension -/

namespace Extension

/-- The extension refuses the call before it looks at the input. -/
def Refused (address : Address) (context : Context) : Prop :=
  address ≠ SYSTEM_ACCOUNT_NEON_TOKEN ∧ context.value ≠ 0 ∨
    address ≠ SYSTEM_ACCOUNT_QUERY ∧ context.contract ≠ address

/-- **No argument is cut off** that is read without a check of the length. -/
def Complete (address : Address) (input : Bytes) (isStatic : Bool) : Prop :=
  if address = SYSTEM_ACCOUNT_QUERY then QueryAccount.Complete input
  else if address = SYSTEM_ACCOUNT_NEON_TOKEN then NeonToken.Complete input isStatic
  else 4 ≤ input.length ∧ (address = SYSTEM_ACCOUNT_SPL_TOKEN →
    SplToken.Complete isStatic (input.take 4) (input.drop 4))

/-- The account that a call reads. -/
def accountRead (B : AccountStorage) (address : Address) (input : Bytes) (context : Context)
    (isStatic : Bool) : Option AccountRead :=
  if address = SYSTEM_ACCOUNT_QUERY then QueryAccount.accountRead input
  else if address = SYSTEM_ACCOUNT_NEON_TOKEN then
    NeonToken.accountRead B input context.value isStatic
  else if address = SYSTEM_ACCOUNT_SPL_TOKEN then
    SplToken.accountRead B context isStatic (input.take 4) (input.drop 4)
  else Metaplex.accountRead input

end Extension

open Extension

omit [Platform] in
theorem not_refused_iff : ¬Refused address context ↔
    (address ≠ SYSTEM_ACCOUNT_NEON_TOKEN → context.value = 0) ∧
      (address ≠ SYSTEM_ACCOUNT_QUERY → context.contract = address) := by
  rw [Refused, not_or, not_and, not_and, not_not, not_not]

theorem ends_iff {x : Db Bytes} {R : Prop}
    (hx : callPrecompileExtension B context address input isStatic = some x)
    (h : (x d).Survives (fun _ _ => True) ↔ ((address ≠ SYSTEM_ACCOUNT_NEON_TOKEN → context.value = 0) →
      (address ≠ SYSTEM_ACCOUNT_QUERY → context.contract = address) → R)) :
    (∃ y, callPrecompileExtension B context address input isStatic = some y ∧
      ∀ p, y d ≠ .panic p) ↔ Refused address context ∨ R := by
  rw [or_iff_not_imp_left, not_refused_iff, and_imp, ← h, Outcome.survives_iff, hx]
  exact ⟨fun ⟨y, hy, hp⟩ => Option.some.inj hy ▸ hp, fun hp => ⟨x, rfl, hp⟩⟩

/-- **No call data crashes an extension** exactly when the extension refuses the call, or no argument
that it slices is cut off and the account that it reads can be read. -/
theorem extensions_end (haddress : isPrecompileExtension address = true)
    (hinput : input.length ≤ ISIZE_MAX) :
    (∃ x, callPrecompileExtension B context address input isStatic = some x ∧ ∀ p, x d ≠ .panic p) ↔
      Refused address context ∨ Complete address input isStatic ∧
        ∀ read ∈ accountRead B address input context isStatic, read.Answers B d := by
  have hextension : address = SYSTEM_ACCOUNT_QUERY ∨ address = SYSTEM_ACCOUNT_NEON_TOKEN ∨
      address = SYSTEM_ACCOUNT_SPL_TOKEN ∨ address = SYSTEM_ACCOUNT_METAPLEX := by
    rw [isPrecompileExtension] at haddress
    simpa only [Bool.or_eq_true, decide_eq_true_eq, or_assoc] using haddress
  have hnq : SYSTEM_ACCOUNT_NEON_TOKEN ≠ SYSTEM_ACCOUNT_QUERY := by decide
  have hsq : SYSTEM_ACCOUNT_SPL_TOKEN ≠ SYSTEM_ACCOUNT_QUERY := by decide
  have hsn : SYSTEM_ACCOUNT_SPL_TOKEN ≠ SYSTEM_ACCOUNT_NEON_TOKEN := by decide
  have hmq : SYSTEM_ACCOUNT_METAPLEX ≠ SYSTEM_ACCOUNT_QUERY := by decide
  have hmn : SYSTEM_ACCOUNT_METAPLEX ≠ SYSTEM_ACCOUNT_NEON_TOKEN := by decide
  have hms : SYSTEM_ACCOUNT_METAPLEX ≠ SYSTEM_ACCOUNT_SPL_TOKEN := by decide
  rcases hextension with rfl | rfl | rfl | rfl
  · refine ends_iff (by rw [callPrecompileExtension, if_pos rfl]) ?_
    rw [QueryAccount.survives_queryAccount, Complete, accountRead, if_pos rfl, if_pos rfl]
    exact ⟨fun h hv _ => h (hv hnq.symm), fun h hv => h (fun _ => hv) fun hne => absurd rfl hne⟩
  · refine ends_iff (by rw [callPrecompileExtension, if_neg hnq, if_pos rfl]) ?_
    rw [NeonToken.survives_neonToken, Complete, accountRead, if_neg hnq, if_pos rfl, if_neg hnq,
      if_pos rfl]
    exact ⟨fun h _ hc => h (hc hnq), fun h hc => h (fun hne => absurd rfl hne) fun _ => hc⟩
  · refine ends_iff (by rw [callPrecompileExtension, if_neg hsq, if_neg hsn, if_pos rfl]) ?_
    rw [SplToken.survives_splToken, Complete, accountRead, if_neg hsq, if_neg hsn, if_neg hsq,
      if_neg hsn, if_pos rfl, and_assoc, forall_prop_of_true rfl]
    exact ⟨fun h hv hc => h (hv hsn) (hc hsq), fun h hv hc => h (fun _ => hv) fun _ => hc⟩
  · refine ends_iff (by rw [callPrecompileExtension, if_neg hmq, if_neg hmn, if_neg hms,
      if_pos rfl]) ?_
    have hlength : input.length < U64_MAX := lt_of_le_of_lt hinput (by decide)
    rw [Metaplex.survives_metaplex hlength, Complete, accountRead, if_neg hmq, if_neg hmn,
      if_neg hmq, if_neg hmn, if_neg hms, and_iff_left fun h => absurd h hms]
    exact ⟨fun h hv hc => h (hv hmn) (hc hmq), fun h hv hc => h (fun _ => hv) fun _ => hc⟩

omit [Platform] in
/-- A selector of the token program and nothing behind it. -/
theorem extensions_end_selector :
    let _ := Platform.bare
    ∃ x, callPrecompileExtension (.holding fun _ => []) ⟨0, SYSTEM_ACCOUNT_SPL_TOKEN, 0, none⟩
        SYSTEM_ACCOUNT_SPL_TOKEN [0xa9, 0xc1, 0x58, 0x06] false = some x ∧
      ∀ p, x ⟨⟨fun _ => none, 0, 0⟩, []⟩ ≠ .panic p := by
  intro _
  refine (extensions_end (by decide) (by decide)).2 (.inr ⟨⟨by decide, fun _ _ i hi h => ?_⟩, ?_⟩)
  · obtain rfl : 64 = i := Option.some.inj hi
    exact absurd h (by decide)
  · exact fun _ hr => nomatch (show _ ∈ (none : Option AccountRead) from hr)

omit [Platform] in
/-- No call data at all, to the token program. -/
theorem empty_input_crashes :
    ¬∀ (_ : Platform) (B : AccountStorage) (d : Database) (address : Address) (input : Bytes)
      (context : Context) (isStatic : Bool), isPrecompileExtension address = true →
        ∃ x, callPrecompileExtension B context address input isStatic = some x ∧
          ∀ p, x d ≠ .panic p := by
  intro h
  let _ := Platform.bare
  obtain ⟨x, hx, hp⟩ := h Platform.bare (.holding fun _ => []) ⟨⟨fun _ => none, 0, 0⟩, []⟩
    SYSTEM_ACCOUNT_SPL_TOKEN [] ⟨0, SYSTEM_ACCOUNT_SPL_TOKEN, 0, none⟩ false (by decide)
  rw [← Option.some.inj hx] at hp
  exact hp .index rfl

end NeonEvm
