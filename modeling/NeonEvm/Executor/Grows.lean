import NeonEvm.Executor.Extension
import NeonEvm.Lib.Journal

/-!
# Executor/Grows — the database only appends, and an extension appends only in its own way

    Grows B P s t    t's journal is s's with blocks in P behind it; snapshots and clock are as before

Every operation of the database is a move along `Grows`.  For the extensions the blocks are those of
`ExtensionBlock`, and there are none in a static call.
-/

namespace NeonEvm

open Exec

namespace ExecutorState

/-- The journal and its marks. -/
def journal (s : ExecutorState) : Journal Action := ⟨s.actions, s.stack⟩

/-- **One database grows into another** — only blocks in `P` are appended, and what is new in the
cache is what the backend has. -/
structure Grows (B : AccountStorage) (P : List Action → Prop) (s t : Database) : Prop where
  actions : ∃ acts, Journal.Built P acts ∧ t.actions = s.actions ++ acts
  blockNumber : t.cache.blockNumber = s.cache.blockNumber
  blockTimestamp : t.cache.blockTimestamp = s.cache.blockTimestamp
  cached : ∀ key info, t.cache.solanaAccounts key = some info →
    s.cache.solanaAccounts key = some info ∨ B.cloneSolanaAccount key = some info

variable {B : AccountStorage} {P Q : List Action → Prop}

theorem Grows.refl (s : Database) : Grows B P s s :=
  ⟨⟨[], .nil, by simp⟩, rfl, rfl, fun _ _ h => .inl h⟩

theorem Grows.trans {s t u : Database} (h : Grows B P s t) (h' : Grows B P t u) :
    Grows B P s u := by
  obtain ⟨as, has, hs⟩ := h.actions
  obtain ⟨bs, hbs, ht⟩ := h'.actions
  refine ⟨⟨as ++ bs, has.trans hbs, by simp [ht, hs]⟩, h'.blockNumber.trans h.blockNumber,
    h'.blockTimestamp.trans h.blockTimestamp, fun key info hu => ?_⟩
  rcases h'.cached key info hu with ht | hB
  · exact h.cached key info ht
  · exact .inr hB

instance : Std.Refl (Grows B P) := ⟨Grows.refl⟩

instance : IsTrans Database (Grows B P) := ⟨fun _ _ _ => Grows.trans⟩

theorem Grows.mono {s t : Database} (h : Grows B P s t) (hPQ : ∀ acts, P acts → Q acts) :
    Grows B Q s t := by
  obtain ⟨acts, hacts, ha⟩ := h.actions
  exact { h with actions := ⟨acts, hacts.mono hPQ, ha⟩ }

/-- Without blocks there is nothing to append. -/
theorem Grows.actions_eq {s t : Database} (h : Grows B P s t) (hP : ∀ acts, ¬P acts) :
    t.actions = s.actions := by
  obtain ⟨acts, hacts, ha⟩ := h.actions
  simpa [hacts.eq_nil hP] using ha

/-! ## The operations of the database -/

theorem moves_pushAction {a : Action} (h : P [a]) : Moves (Grows B P) (pushAction a) :=
  moves_modify fun _ =>
    ⟨⟨[a], .single h, rfl⟩, rfl, rfl, fun _ _ h => .inl h⟩

/-- Two actions that make one block. -/
theorem moves_pushAction_pushAction {a b : Action} (h : P [a, b]) :
    Moves (Grows B P) (pushAction a >>= fun _ => pushAction b) := fun s =>
  show Grows B P s { s with actions := (s.actions ++ [a]) ++ [b] } from
    ⟨⟨[a, b], .single h, by simp⟩, rfl, rfl, fun _ _ h => .inl h⟩

theorem moves_nonce (address : Address) : Moves (Grows B P) (nonce B address) :=
  moves_bind (moves_ofOption _ _) fun _ => moves_bind (moves_gets _) fun _ => moves_ofExcept _

theorem moves_balance (address : Address) : Moves (Grows B P) (balance B address) :=
  moves_bind (moves_ofOption _ _) fun _ => moves_bind (moves_gets _) fun _ => moves_ofExcept _

theorem moves_transfer {source target : Address} {value : U256}
    (h : value ≠ 0 → source ≠ target → P [.neonTransfer source target value]) :
    Moves (Grows B P) (transfer B source target value) :=
  moves_ite (fun _ => moves_pure _) fun hv =>
    moves_ite (fun _ => moves_pure _) fun hst =>
      moves_bind (moves_balance _) fun _ =>
        moves_bind (moves_failIf _ _) fun _ => moves_pushAction (h hv hst)

theorem moves_codeSize (address : Address) : Moves (Grows B P) (codeSize B address) :=
  moves_ite (fun _ => moves_pure _) fun _ => moves_bind (moves_gets _) fun acts => by
    cases Overlay.code address acts with
    | none => exact moves_ofOption _ _
    | some code => exact moves_pure _

theorem moves_code (address : Address) : Moves (Grows B P) (code B address) :=
  moves_bind (moves_gets _) fun acts => by
    cases Overlay.code address acts with
    | none => exact moves_ofOption _ _
    | some code => exact moves_pure _

theorem moves_storage (address : Address) (index : U256) :
    Moves (Grows B P) (storage B address index) :=
  moves_bind (moves_gets _) fun acts => by
    cases Overlay.storage address index acts with
    | none => exact moves_ofOption _ _
    | some value => exact moves_pure _

theorem moves_setCode {address : Address} {code : Buffer}
    (h : code.len ≤ 0x6000 → P [.evmSetCode address code]) :
    Moves (Grows B P) (setCode address code) :=
  moves_failIf_bind fun hlen => moves_pushAction (h (by simpa using hlen))

theorem moves_mapSolanaAccount (key : Pubkey) : Moves (Grows B P) (mapSolanaAccount B key) :=
  moves_ofOption _ _

/-- Reading an account into the cache. -/
theorem moves_cachedAccount (key : Pubkey) : Moves (Grows B P) (cachedAccount B key) :=
  moves_bind (moves_gets _) fun cached => by
    cases cached with
    | some info => exact moves_pure _
    | none =>
      intro s
      cases hB : B.cloneSolanaAccount key with
      | none => simp [ofOption, Outcome.Within, Outcome.Sat]
      | some info =>
        refine ⟨⟨[], .nil, by simp⟩, rfl, rfl, fun key' info' h => ?_⟩
        by_cases hk : key' = key
        · subst hk
          exact .inr (by simpa [hB] using h)
        · exact .inl (by simpa [Function.update_of_ne hk] using h)

theorem moves_collectAccounts (metas : List AccountMeta) :
    Moves (Grows B P) (collectAccounts B metas) :=
  moves_foldl (fun _ _ => moves_bind (moves_cachedAccount _) fun _ => moves_pure _) _ _

theorem moves_runEmulation {α : Type} (accounts : SolanaAccounts) (x : Emulation α) :
    Moves (Grows B P) (runEmulation accounts x) := fun s => by
  unfold runEmulation
  cases x accounts with
  | ok _ _ => exact Grows.refl s
  | err _ _ => exact Grows.refl s
  | panic _ => trivial

theorem moves_externalAccount [Platform] (key : Pubkey) :
    Moves (Grows B P) (externalAccount B key) :=
  moves_bind (moves_gets _) fun _ =>
    moves_ite (fun _ => moves_cachedAccount _) fun _ =>
      moves_bind (moves_collectAccounts _) fun _ =>
        moves_bind (moves_runEmulation _ _) fun _ => moves_ofOption _ _

/-! ## The extensions -/

section Extensions

variable [Platform]

/-- **What an extension may append for a call** — instructions that only the caller's own seeds
sign, or a transfer from the pool together with the debit that pays for it. -/
inductive ExtensionBlock (B : AccountStorage) (context : Context) : List Action → Prop
  | unsigned (i : Instruction) (fee : ℕ) :
    ExtensionBlock B context [.externalInstruction i.programId i.accounts i.data [] fee]
  | signed (i : Instruction) (fee : ℕ) :
    ExtensionBlock B context [.externalInstruction i.programId i.accounts i.data
      (signerSeeds context.caller (B.solanaAddress context.caller).2) fee]
  | derived (i : Instruction) (seed : Bytes) (kind : Bytes)
      (hkind : kind = CONTRACT_DATA_SEED ∨ kind = AUTH_SEED) :
    ExtensionBlock B context [.externalInstruction i.programId i.accounts i.data
      ([[ACCOUNT_SEED_VERSION], kind, context.caller.bytes, seed]
        ++ [[(Platform.findProgramAddress
          [[ACCOUNT_SEED_VERSION], kind, context.caller.bytes, seed] B.programId).2]]) 0]
  | withdrawal (i : Instruction) (target : Pubkey) (value : U256)
      (hcontract : context.contract = SYSTEM_ACCOUNT_NEON_TOKEN)
      (hi : Platform.splTransferChecked (poolKey B.programId B.neonTokenMint) B.neonTokenMint
        (Platform.getAssociatedTokenAddress target B.neonTokenMint)
        (poolAuthority B.programId).1 (value.toNat / 10 ^ additionalDecimals)
        Platform.tokenMintDecimals.val = .ok i)
      (hmod : value.toNat % 10 ^ additionalDecimals = 0)
      (hmax : value.toNat / 10 ^ additionalDecimals ≤ U64_MAX) :
    ExtensionBlock B context
      [.externalInstruction i.programId i.accounts i.data
        [DEPOSIT_SEED, [(poolAuthority B.programId).2]] 0,
        .neonWithdraw context.contract value]

/-- The blocks of a call that is not static. -/
def Unguarded (B : AccountStorage) (context : Context) (isStatic : Bool) (acts : List Action) :
    Prop := isStatic = false ∧ ExtensionBlock B context acts

variable {context : Context} {isStatic : Bool}

/-- The guard that each state-changing method repeats. -/
theorem moves_guarded {α : Type} {address : Address} {x : Db α}
    (hx : Moves (Grows B (ExtensionBlock B context)) x) :
    Moves (Grows B (Unguarded B context isStatic))
      (if isStatic then fail (.staticModeViolation address) else x) := by
  cases isStatic with
  | true => exact moves_fail _
  | false => exact hx.mono fun _ _ h => h.mono fun _ h => ⟨rfl, h⟩

omit [Platform] in
theorem moves_queryAccount (address : Address) (input : Bytes) :
    Moves (Grows B P) (QueryAccount.queryAccount B address input context isStatic) := by
  have read {α : Type} {f : AccountInfo → Db α} (key : Pubkey)
      (hf : ∀ info, Moves (Grows B P) (f info)) :
      Moves (Grows B P) (mapSolanaAccount B key >>= f) :=
    moves_bind (moves_mapSolanaAccount key) hf
  refine moves_bind (moves_failIf _ _) fun _ => moves_bind (moves_lift _) fun (_, rest) =>
    moves_bind (moves_lift _) fun (_, rest) => ?_
  refine moves_ite (fun _ => moves_pure _) fun _ => ?_
  refine moves_ite (fun _ => read _ fun _ => moves_pure _) fun _ => ?_
  refine moves_ite (fun _ => read _ fun _ => moves_pure _) fun _ => ?_
  refine moves_ite (fun _ => read _ fun _ => moves_pure _) fun _ => ?_
  refine moves_ite (fun _ => read _ fun _ => moves_pure _) fun _ => ?_
  refine moves_ite (fun _ => read _ fun _ => moves_pure _) fun _ => ?_
  refine moves_ite (fun _ => ?_) fun _ => ?_
  · refine moves_bind (moves_lift _) fun _ => moves_bind (moves_lift _) fun _ =>
      moves_bind (moves_lift _) fun _ => ?_
    exact moves_ite (fun _ => moves_fail _) fun _ => read _ fun _ =>
      moves_ite (fun _ => moves_pure _) fun _ => moves_fail _
  · exact moves_ite (fun _ => read _ fun _ => moves_pure _) fun _ => moves_fail _

theorem moves_createTargetToken (target : Pubkey) (account : AccountInfo) :
    Moves (Grows B (ExtensionBlock B context)) (NeonToken.createTargetToken B target account) :=
  moves_ite (fun _ => moves_pure _) fun _ => moves_bind (moves_lift _) fun _ =>
    moves_pushAction (.unsigned _ _)

/-- **A withdrawal appends its two actions together**, and only for the exact value. -/
theorem moves_withdraw (target : Pubkey) (value : U256)
    (hcontract : context.contract = SYSTEM_ACCOUNT_NEON_TOKEN) :
    Moves (Grows B (ExtensionBlock B context))
      (NeonToken.withdraw B context.contract target value) := by
  refine moves_bind (moves_failIf _ _) fun _ => moves_failIf_bind fun hmax =>
    moves_failIf_bind fun hmod => moves_bind (moves_externalAccount _) fun account =>
      moves_bind (moves_createTargetToken _ _) fun _ => moves_lift_bind fun i hi => ?_
  refine moves_pushAction_pushAction (.withdrawal i target value hcontract ?_ ?_ ?_)
  · exact ofForeign_eq_ok hi
  · simpa using hmod
  · simpa using hmax

theorem moves_neonToken {address : Address} (haddress : address = SYSTEM_ACCOUNT_NEON_TOKEN)
    (input : Bytes) :
    Moves (Grows B (Unguarded B context isStatic))
      (NeonToken.neonToken B address input context isStatic) := by
  refine moves_failIf_bind fun hcontract => moves_bind (moves_lift _) fun (_, rest) => ?_
  have hcontract : context.contract = SYSTEM_ACCOUNT_NEON_TOKEN := by
    simpa [haddress] using hcontract
  refine moves_ite (fun _ => moves_guarded ?_) fun _ => moves_fail _
  exact moves_bind (moves_lift _) fun _ => moves_bind (moves_withdraw _ _ hcontract) fun _ =>
    moves_pure _

/-! ### The token program -/

theorem moves_queueSigned (instruction : Pubkey → Except String Instruction) :
    Moves (Grows B (ExtensionBlock B context)) (SplToken.queueSigned B context instruction) :=
  moves_bind (moves_lift _) fun _ => moves_bind (moves_pushAction (.signed _ _)) fun _ =>
    moves_pure _

theorem moves_transferWithSeed (seed : Bytes) (source target : Pubkey) (amount : ℕ) :
    Moves (Grows B (ExtensionBlock B context))
      (SplToken.transferWithSeed B context seed source target amount) :=
  moves_bind (moves_lift _) fun _ =>
    moves_bind (moves_pushAction (.derived _ seed AUTH_SEED (.inr rfl))) fun _ => moves_pure _

theorem moves_createSeededAccount (seed : Bytes) (space : ℕ) :
    Moves (Grows B (ExtensionBlock B context))
      (SplToken.createSeededAccount B context seed space) := by
  have queue (i : Instruction) : Moves (Grows B (ExtensionBlock B context))
      (queueExternalInstruction i (SplToken.contractDataSeeds context seed
        ++ [[(Platform.findProgramAddress (SplToken.contractDataSeeds context seed)
          B.programId).2]]) 0) :=
    moves_pushAction (.derived i seed CONTRACT_DATA_SEED (.inl rfl))
  refine moves_bind (moves_externalAccount _) fun account => moves_bind (moves_failIf _ _) fun _ =>
    moves_bind (moves_bind (moves_lift _) fun _ => ?_) fun _ => moves_pure _
  refine moves_bind (moves_ite (fun _ => ?_) fun _ => moves_pure _) fun _ =>
    moves_bind (queue _) fun _ => queue _
  exact moves_pushAction (.unsigned _ _)

theorem moves_initializeMint (seed : Bytes) (decimals : UInt8)
    (mintAuthority freezeAuthority : Option Pubkey) :
    Moves (Grows B (ExtensionBlock B context))
      (SplToken.initializeMint B context seed decimals mintAuthority freezeAuthority) :=
  moves_bind (moves_createSeededAccount _ _) fun _ => moves_bind (moves_lift _) fun _ =>
    moves_bind (moves_pushAction (.unsigned _ _)) fun _ => moves_pure _

theorem moves_initializeAccount (seed : Bytes) (mint : Pubkey) (owner : Option Pubkey) :
    Moves (Grows B (ExtensionBlock B context))
      (SplToken.initializeAccount B context seed mint owner) :=
  moves_bind (moves_createSeededAccount _ _) fun _ => moves_bind (moves_lift _) fun _ =>
    moves_bind (moves_pushAction (.unsigned _ _)) fun _ => moves_pure _

theorem moves_readState {α : Type} (unpack : Bytes → Except String α) (default : α)
    (key : Pubkey) : Moves (Grows B P) (SplToken.readState B unpack default key) :=
  moves_bind (moves_externalAccount _) fun _ => moves_ite (fun _ => moves_lift _) fun _ =>
    moves_ite (fun _ => moves_pure _) fun _ => moves_fail _

theorem moves_splToken (address : Address) (input : Bytes) :
    Moves (Grows B (Unguarded B context isStatic))
      (SplToken.splToken B address input context isStatic) := by
  refine moves_bind (moves_failIf _ _) fun _ => moves_bind (moves_failIf _ _) fun _ =>
    moves_bind (moves_lift _) fun (selector, input) => ?_
  -- the methods that queue instructions, in the order of the source
  refine moves_ite (fun _ => moves_guarded ?_) fun _ => ?_
  · exact moves_bind (moves_lift _) fun _ => moves_bind (moves_lift _) fun _ =>
      moves_initializeMint _ _ _ _
  refine moves_ite (fun _ => moves_guarded ?_) fun _ => ?_
  · exact moves_bind (moves_lift _) fun _ => moves_bind (moves_lift _) fun _ =>
      moves_bind (moves_lift _) fun _ => moves_bind (moves_lift _) fun _ =>
        moves_initializeMint _ _ _ _
  refine moves_ite (fun _ => moves_guarded ?_) fun _ => ?_
  · exact moves_bind (moves_lift _) fun _ => moves_bind (moves_lift _) fun _ =>
      moves_initializeAccount _ _ _
  refine moves_ite (fun _ => moves_guarded ?_) fun _ => ?_
  · exact moves_bind (moves_lift _) fun _ => moves_bind (moves_lift _) fun _ =>
      moves_bind (moves_lift _) fun _ => moves_initializeAccount _ _ _
  refine moves_ite (fun _ => moves_guarded ?_) fun _ => ?_
  · exact moves_bind (moves_lift _) fun _ => moves_queueSigned _
  refine moves_ite (fun _ => moves_guarded ?_) fun _ => ?_
  · exact moves_bind (moves_lift _) fun _ => moves_bind (moves_lift _) fun _ =>
      moves_bind (moves_lift _) fun _ => moves_queueSigned _
  refine moves_ite (fun _ => moves_guarded ?_) fun _ => ?_
  · exact moves_bind (moves_lift _) fun _ => moves_queueSigned _
  refine moves_ite (fun _ => moves_guarded ?_) fun _ => ?_
  · exact moves_bind (moves_lift _) fun _ => moves_bind (moves_lift _) fun _ =>
      moves_bind (moves_lift _) fun _ => moves_queueSigned _
  refine moves_ite (fun _ => moves_guarded ?_) fun _ => ?_
  · exact moves_bind (moves_lift _) fun _ => moves_bind (moves_lift _) fun _ =>
      moves_bind (moves_lift _) fun _ => moves_bind (moves_lift _) fun _ =>
        moves_transferWithSeed _ _ _ _
  refine moves_ite (fun _ => moves_guarded ?_) fun _ => ?_
  · exact moves_bind (moves_lift _) fun _ => moves_bind (moves_lift _) fun _ =>
      moves_bind (moves_lift _) fun _ => moves_queueSigned _
  refine moves_ite (fun _ => moves_guarded ?_) fun _ => ?_
  · exact moves_bind (moves_lift _) fun _ => moves_bind (moves_lift _) fun _ =>
      moves_bind (moves_lift _) fun _ => moves_queueSigned _
  refine moves_ite (fun _ => moves_guarded ?_) fun _ => ?_
  · exact moves_bind (moves_lift _) fun _ => moves_bind (moves_lift _) fun _ =>
      moves_queueSigned _
  refine moves_ite (fun _ => moves_guarded ?_) fun _ => ?_
  · exact moves_bind (moves_lift _) fun _ => moves_bind (moves_lift _) fun _ =>
      moves_queueSigned _
  -- the methods that read
  refine moves_ite (fun _ => moves_bind (moves_lift _) fun _ => moves_pure _) fun _ => ?_
  refine moves_ite (fun _ => moves_bind (moves_lift _) fun _ => ?_) fun _ => ?_
  · exact moves_bind (moves_externalAccount _) fun _ => moves_pure _
  refine moves_ite (fun _ => moves_bind (moves_lift _) fun _ => ?_) fun _ => ?_
  · exact moves_bind (moves_readState _ _ _) fun _ => moves_pure _
  refine moves_ite (fun _ => moves_bind (moves_lift _) fun _ => ?_) fun _ => moves_fail _
  · exact moves_bind (moves_readState _ _ _) fun _ => moves_pure _

/-! ### Metaplex -/

theorem moves_queueCreation (instruction : Pubkey → Instruction) (space : ℕ) :
    Moves (Grows B (ExtensionBlock B context))
      (Metaplex.queueCreation B context instruction space) :=
  moves_bind (moves_lift _) fun _ => moves_pushAction (.signed _ _)

theorem moves_metadata (mint : Pubkey) : Moves (Grows B P) (Metaplex.metadata B mint) :=
  moves_bind (moves_externalAccount _) fun _ => moves_pure _

theorem moves_metaplex (address : Address) (input : Bytes) :
    Moves (Grows B (Unguarded B context isStatic))
      (Metaplex.metaplex B address input context isStatic) := by
  have read (mint : Pubkey) (f : Option Metadata → Bytes) :
      Moves (Grows B (Unguarded B context isStatic))
        (Metaplex.metadata B mint >>= fun m => pure (f m)) :=
    moves_bind (moves_metadata mint) fun _ => moves_pure _
  refine moves_bind (moves_failIf _ _) fun _ => moves_bind (moves_failIf _ _) fun _ =>
    moves_bind (moves_lift _) fun (selector, input) => ?_
  refine moves_ite (fun _ => moves_guarded ?_) fun _ => ?_
  · exact moves_bind (moves_lift _) fun _ => moves_bind (moves_lift _) fun _ =>
      moves_bind (moves_lift _) fun _ => moves_bind (moves_lift _) fun _ =>
        moves_bind (moves_queueCreation _ _) fun _ => moves_pure _
  refine moves_ite (fun _ => moves_guarded ?_) fun _ => ?_
  · exact moves_bind (moves_lift _) fun _ => moves_bind (moves_lift _) fun _ =>
      moves_bind (moves_queueCreation _ _) fun _ => moves_pure _
  refine moves_ite (fun _ => moves_bind (moves_lift _) fun _ => read _ _) fun _ => ?_
  refine moves_ite (fun _ => moves_bind (moves_lift _) fun _ => read _ _) fun _ => ?_
  refine moves_ite (fun _ => moves_bind (moves_lift _) fun _ => read _ _) fun _ => ?_
  refine moves_ite (fun _ => moves_bind (moves_lift _) fun _ => read _ _) fun _ => ?_
  exact moves_ite (fun _ => moves_bind (moves_lift _) fun _ => read _ _) fun _ => moves_fail _

/-- **An extension appends only its own blocks, and nothing in a static call.** -/
theorem moves_callPrecompileExtension {address : Address} {input : Bytes} {x : Db Bytes}
    (hx : callPrecompileExtension B context address input isStatic = some x) :
    Moves (Grows B (Unguarded B context isStatic)) x := by
  unfold callPrecompileExtension at hx
  split at hx
  · cases hx
    exact moves_queryAccount _ _
  split at hx
  · cases hx
    exact moves_neonToken ‹_› _
  split at hx
  · cases hx
    exact moves_splToken _ _
  split at hx
  · cases hx
    exact moves_metaplex _ _
  · cases hx

end Extensions

end ExecutorState

end NeonEvm
