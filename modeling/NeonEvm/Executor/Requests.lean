import NeonEvm.Executor.Keyed

/-!
# Executor/Requests — what a contract asks of other programs

    operator    pays the rent that a derived account lacks, and for a token account to withdraw to
    pool        pays the withdrawal that follows
    caller      is the authority of what is asked, and its seeds sign for it

A request is queued by an extension, for the caller of the extension: the account of the caller, or
one that is derived from the caller and a seed, is the authority of the instruction.  What it may
ask depends on the journal in front of it, and on what the extension has queued behind it.
-/

namespace NeonEvm

open Exec

/-- An instruction of another program. -/
def Action.isInstruction : Action → Bool
  | .externalInstruction .. => true
  | _ => false

namespace ExecutorState

variable [Platform] (B : AccountStorage) (caller : Address)

/-- An instruction in the queue. -/
def queued (i : Instruction) (seeds : List Bytes) (fee : ℕ) : Action :=
  .externalInstruction i.programId i.accounts i.data seeds fee

/-- The account of the caller. -/
def callerKey : Pubkey := (B.solanaAddress caller).1

/-- The seeds of an account that is derived from the caller. -/
def derivedSeeds (kind seed : Bytes) : List Bytes :=
  [[ACCOUNT_SEED_VERSION], kind, caller.bytes, seed]

/-- The account that is derived from the caller, and its bump. -/
def derivedKey (kind seed : Bytes) : Pubkey × UInt8 :=
  Platform.findProgramAddress (derivedSeeds caller kind seed) B.programId

/-- What signs for a derived account. -/
def derivedSigner (kind seed : Bytes) : List Bytes :=
  derivedSeeds caller kind seed ++ [[(derivedKey B caller kind seed).2]]

/-- **An instruction of the token program**, with its authority. -/
inductive TokenRequest (authority : Pubkey) : Instruction → Prop
  | closeAccount {account : Pubkey} {i : Instruction}
      (h : Platform.splCloseAccount account B.operator authority = .ok i) : TokenRequest authority i
  | approve {source target : Pubkey} {amount : ℕ} {i : Instruction}
      (h : Platform.splApprove source target authority amount = .ok i) : TokenRequest authority i
  | revoke {account : Pubkey} {i : Instruction}
      (h : Platform.splRevoke account authority = .ok i) : TokenRequest authority i
  | transfer {source target : Pubkey} {amount : ℕ} {i : Instruction}
      (h : Platform.splTransfer source target authority amount = .ok i) : TokenRequest authority i
  | mintTo {mint target : Pubkey} {amount : ℕ} {i : Instruction}
      (h : Platform.splMintTo mint target authority amount = .ok i) : TokenRequest authority i
  | burn {mint source : Pubkey} {amount : ℕ} {i : Instruction}
      (h : Platform.splBurn source mint authority amount = .ok i) : TokenRequest authority i
  | freeze {mint target : Pubkey} {i : Instruction}
      (h : Platform.splFreezeAccount target mint authority = .ok i) : TokenRequest authority i
  | thaw {mint target : Pubkey} {i : Instruction}
      (h : Platform.splThawAccount target mint authority = .ok i) : TokenRequest authority i

/-- The account of a seed, that a contract may have made. -/
abbrev dataKey (seed : Bytes) : Pubkey := (derivedKey B caller CONTRACT_DATA_SEED seed).1

/-- What the token program moves from the pool to a target. -/
def poolTransfer (target : Pubkey) (value : U256) : Except String Instruction :=
  Platform.splTransferChecked (poolKey B.programId B.neonTokenMint) B.neonTokenMint
    (Platform.getAssociatedTokenAddress target B.neonTokenMint) (poolAuthority B.programId).1
    (value.toNat / 10 ^ additionalDecimals) Platform.tokenMintDecimals.val

/-- What is known of an account that is read behind a journal. -/
abbrev Knowledge := List Action → Pubkey → AccountInfo → Prop

/-- **An account behind a journal** — it is the account of the key, as the instructions of the
journal would leave it. -/
def AccountBehind : Knowledge := fun before key account =>
  account.key = key ∧
    ∃ d, externalAccount B key ⟨(ExecutorState.new B).cache, before⟩ = .ok account d

variable (Q : Knowledge)

/-- The account of a seed was read, behind actions that `before` begins with. -/
def ReadIn (before : List Action) (seed : Bytes) (account : AccountInfo) : Prop :=
  ∃ front, front <+: before ∧ Q front (dataKey B caller seed) account

/-- **What is asked for a caller**, behind the actions `before` and in front of `after`. -/
inductive Request (before after : List Action) : Action → Prop
  | rent (seed : Bytes) {space minimum : ℕ} {account : AccountInfo} {rest : List Action}
      (haccount : Q before (dataKey B caller seed) account)
      (hminimum : Platform.minimumBalance space = .ok minimum)
      (hlacks : account.lamports < minimum)
      (hafter : after = queued (Platform.systemAllocate account.key space)
        (derivedSigner B caller CONTRACT_DATA_SEED seed) 0 :: rest) :
    Request before after (queued (Platform.systemTransfer B.operator account.key
      (minimum - account.lamports)) [] (minimum - account.lamports))
  | allocate (seed : Bytes) {space minimum : ℕ} {account : AccountInfo}
      (haccount : ReadIn B caller Q before seed account)
      (hminimum : Platform.minimumBalance space = .ok minimum) :
    Request before after (queued (Platform.systemAllocate account.key space)
      (derivedSigner B caller CONTRACT_DATA_SEED seed) 0)
  | assign (seed : Bytes) {account : AccountInfo}
      (haccount : ReadIn B caller Q before seed account) :
    Request before after (queued (Platform.systemAssign account.key Platform.splTokenId)
      (derivedSigner B caller CONTRACT_DATA_SEED seed) 0)
  | initializeMint (seed : Bytes) (mintAuthority freezeAuthority : Option Pubkey) (decimals : UInt8)
      {i : Instruction}
      (h : Platform.splInitializeMint (dataKey B caller seed)
        (mintAuthority.getD (callerKey B caller)) (freezeAuthority.getD (callerKey B caller))
        decimals.toNat = .ok i) :
    Request before after (queued i [] 0)
  | initializeAccount (seed : Bytes) (mint : Pubkey) (owner : Option Pubkey) {i : Instruction}
      (h : Platform.splInitializeAccount2 (dataKey B caller seed) mint
        (owner.getD (callerKey B caller)) = .ok i) :
    Request before after (queued i [] 0)
  | targetToken (target : Pubkey) {account : AccountInfo} {fee : ℕ}
      (haccount : Q before (Platform.getAssociatedTokenAddress target B.neonTokenMint) account)
      (howner : account.owner ≠ Platform.splTokenId)
      (hfee : Platform.minimumBalance Platform.tokenAccountLen = .ok fee) :
    Request before after (queued (Platform.createAssociatedTokenAccount B.operator target
      B.neonTokenMint Platform.splTokenId) [] fee)
  | pool (target : Pubkey) {value : U256} {i : Instruction} {rest : List Action}
      (hmod : value.toNat % 10 ^ additionalDecimals = 0)
      (hmax : value.toNat / 10 ^ additionalDecimals ≤ U64_MAX)
      (h : poolTransfer B target value = .ok i)
      (hafter : after = .neonWithdraw SYSTEM_ACCOUNT_NEON_TOKEN value :: rest) :
    Request before after (queued i [DEPOSIT_SEED, [(poolAuthority B.programId).2]] 0)
  | token {i : Instruction} (h : TokenRequest B (callerKey B caller) i) :
    Request before after (queued i (signerSeeds caller (B.solanaAddress caller).2) 0)
  | transferWithSeed (seed : Bytes) {source target : Pubkey} {amount : ℕ} {i : Instruction}
      (h : Platform.splTransfer source target (derivedKey B caller AUTH_SEED seed).1 amount =
        .ok i) :
    Request before after (queued i (derivedSigner B caller AUTH_SEED seed) 0)
  | metadata (mint : Pubkey) (name symbol uri : String) {minimum : ℕ}
      (hminimum : Platform.minimumBalance Platform.maxMetadataLen = .ok minimum) :
    Request before after (queued (Platform.createMetadataAccountsV3
      (Platform.findMetadataAccount mint) mint (callerKey B caller) B.operator (callerKey B caller)
      name symbol uri [⟨B.programId, false, 0⟩, ⟨callerKey B caller, true, 100⟩])
      (signerSeeds caller (B.solanaAddress caller).2) (wrappingAdd minimum Platform.createFee))
  | masterEdition (mint : Pubkey) (maxSupply : Option ℕ) {minimum : ℕ}
      (hminimum : Platform.minimumBalance Platform.maxMasterEditionLen = .ok minimum) :
    Request before after (queued (Platform.createMasterEditionV3
      (Platform.findMasterEditionAccount mint) mint (callerKey B caller) (callerKey B caller)
      (Platform.findMetadataAccount mint) B.operator maxSupply)
      (signerSeeds caller (B.solanaAddress caller).2) (wrappingAdd minimum Platform.createFee))

variable (I : SolanaAccounts → Prop)

/-- **One database asks more than another** — what is appended is asked for the caller. -/
structure Asks (d d' : Database) : Prop where
  known : I d'.cache.solanaAccounts
  grows : d.actions <+: d'.actions
  request : ∀ {before after : List Action} {a : Action}, d'.actions = before ++ a :: after →
    d.actions <+: before → a.isInstruction = true → Request B caller Q before after a

/-- What an extension makes of a database. -/
def Requests (d d' : Database) : Prop := I d.cache.solanaAccounts → Asks B caller Q I d d'

/-- **The accounts that are cached tell `Q`** of those that are read. -/
structure Tells : Prop where
  grows {d d' : Database} (h : Grows B (fun _ => True) d d') (hd : I d.cache.solanaAccounts) :
    I d'.cache.solanaAccounts
  read {d d' : Database} {key : Pubkey} {account : AccountInfo} (hd : I d.cache.solanaAccounts)
    (h : externalAccount B key d = .ok account d') : Q d.actions key account

variable {B caller Q I} {context : Context} {isStatic : Bool} {d d' d'' : Database} {key : Pubkey}

/-- What is appended behind a request does not touch it. -/
theorem Request.append {before after : List Action} {a : Action}
    (h : Request B caller Q before after a) (acts : List Action) :
    Request B caller Q before (after ++ acts) a := by
  cases h with
  | rent seed haccount hminimum hlacks hafter =>
    exact .rent seed haccount hminimum hlacks (by rw [hafter, List.cons_append])
  | allocate seed haccount hminimum => exact .allocate seed haccount hminimum
  | assign seed haccount => exact .assign seed haccount
  | initializeMint seed mintAuthority freezeAuthority decimals h =>
    exact .initializeMint seed mintAuthority freezeAuthority decimals h
  | initializeAccount seed mint owner h => exact .initializeAccount seed mint owner h
  | targetToken target haccount howner hfee => exact .targetToken target haccount howner hfee
  | pool target hmod hmax h hafter =>
    exact .pool target hmod hmax h (by rw [hafter, List.cons_append])
  | token h => exact .token h
  | transferWithSeed seed h => exact .transferWithSeed seed h
  | metadata mint name symbol uri hminimum => exact .metadata mint name symbol uri hminimum
  | masterEdition mint maxSupply hminimum => exact .masterEdition mint maxSupply hminimum

/-! ## What is asked piece by piece -/

theorem Asks.of_eq (hknown : I d'.cache.solanaAccounts) (h : d'.actions = d.actions) :
    Asks B caller Q I d d' where
  known := hknown
  grows := h ▸ List.prefix_rfl
  request {before after a} heq hbelow _ := by
    have hlength := hbelow.length_le
    rw [← h, heq, List.length_append, List.length_cons] at hlength
    omega

theorem Asks.trans (h : Asks B caller Q I d d') (h' : Asks B caller Q I d' d'') :
    Asks B caller Q I d d'' where
  known := h'.known
  grows := h.grows.trans h'.grows
  request {before after a} heq hbelow hi := by
    rcases Journal.stands_or_below h'.grows ⟨after, heq⟩ with ⟨rest, hin⟩ | hin
    · obtain ⟨more, hmore⟩ := h'.grows
      rw [← hmore, hin, List.append_assoc] at heq
      obtain ⟨-, rfl⟩ := List.cons.inj (List.append_cancel_left heq)
      exact (h.request hin hbelow hi).append more
    · exact h'.request heq hin hi

/-- **One more action**, of which what follows is known. -/
theorem Asks.cons {a : Action} {acts : List Action}
    (ha : a.isInstruction = true → Request B caller Q d.actions acts a)
    (h : Asks B caller Q I { d with actions := d.actions ++ [a] } d')
    (hacts : d'.actions = d.actions ++ a :: acts) : Asks B caller Q I d d' where
  known := h.known
  grows := ⟨a :: acts, hacts.symm⟩
  request {before after x} heq hbelow hi := by
    obtain ⟨front, rfl⟩ := hbelow
    cases front with
    | nil =>
      rw [hacts, List.append_nil] at heq
      obtain ⟨rfl, rfl⟩ := List.cons.inj (List.append_cancel_left heq)
      rw [List.append_nil]
      exact ha hi
    | cons y front =>
      rw [hacts, List.append_assoc] at heq
      obtain ⟨rfl, -⟩ := List.cons.inj (List.append_cancel_left heq)
      exact h.request (by rw [hacts, heq]; simp) (by simp) hi

/-- Two actions that are appended together. -/
theorem Asks.pair {a b : Action} (hd : I d.cache.solanaAccounts)
    (ha : Request B caller Q d.actions [b] a)
    (hb : b.isInstruction = true → Request B caller Q (d.actions ++ [a]) [] b) :
    Asks B caller Q I d { d with actions := (d.actions ++ [a]) ++ [b] } :=
  .cons (fun _ => ha) (.cons hb (.of_eq hd rfl) rfl) (List.append_assoc _ _ _)

instance : Std.Refl (Requests B caller Q I) := ⟨fun _ hd => .of_eq hd rfl⟩

instance : IsTrans Database (Requests B caller Q I) :=
  ⟨fun _ _ _ h h' hd => (h hd).trans (h' (h hd).known)⟩

/-- A computation that appends nothing. -/
theorem requests_of_grows (hQ : Tells B Q I) {α : Type} {x : Db α}
    (hx : Moves (Grows B fun _ => False) x) : Moves (Requests B caller Q I) x :=
  hx.mono fun _ _ h hd =>
    .of_eq (hQ.grows (h.mono fun _ => False.elim) hd) (h.actions_eq fun _ => id)

/-- **One request** is queued. -/
theorem requests_queue {i : Instruction} {seeds : List Bytes} {fee : ℕ}
    (h : ∀ before after, Request B caller Q before after (queued i seeds fee)) :
    Moves (Requests B caller Q I) (queueExternalInstruction i seeds fee) := fun _ hd =>
  .cons (fun _ => h _ []) (.of_eq hd rfl) rfl

/-- Behind a computation that is known from here. -/
theorem requests_bind {α β : Type} {x : Db α} {f : α → Db β}
    (hx : (x d).Within (Requests B caller Q I) d) (hf : ∀ a, Moves (Requests B caller Q I) (f a)) :
    ((x >>= f) d).Within (Requests B caller Q I) d :=
  Outcome.Sat.andThen hx fun a t ht => (hf a t).trans ht

/-- Behind a value that another crate computes. -/
theorem requests_lift {α β : Type} {x : Except String α} {f : α → Db β}
    (hf : ∀ a, x = .ok a → (f a d).Within (Requests B caller Q I) d) :
    ((lift (ofForeign x) >>= f) d).Within (Requests B caller Q I) d := by
  rcases x with text | a
  · exact fun hd => .of_eq hd rfl
  · exact hf a rfl

/-- **An account is read**, and what is known of it. -/
theorem requests_externalAccount (hQ : Tells B Q I) {α : Type} {f : AccountInfo → Db α}
    (hf : ∀ {d account}, Q d.actions key account →
      (f account d).Within (Requests B caller Q I) d) :
    Moves (Requests B caller Q I) (externalAccount B key >>= f) := fun d => by
  by_cases hd : I d.cache.solanaAccounts
  · have hreads : (externalAccount B key d).Within (Requests B caller Q I) d :=
      requests_of_grows hQ (moves_externalAccount key) d
    rw [bind_run]
    rcases hread : externalAccount B key d with ⟨account, c⟩ | ⟨e, c⟩ | p
    · rw [hread] at hreads
      have hgrows := (moves_externalAccount (B := B) (P := fun _ => False) key).returns _ _ _ hread
      have hknown := hQ.read hd hread
      rw [← hgrows.actions_eq fun _ => id] at hknown
      exact (hf hknown).trans hreads
    · rwa [hread] at hreads
    · trivial
  · cases (externalAccount B key >>= f) d with
    | ok _ _ => exact fun h => absurd h hd
    | err _ _ => exact fun h => absurd h hd
    | panic _ => trivial

omit [Platform] in
/-- Behind a computation that returns one value only. -/
theorem moves_bind_of {α β : Type} {R : Database → Database → Prop} [IsTrans Database R]
    {x : Db α} {f : α → Db β} {v : α} (hx : Moves R x) (hv : ∀ s a t, x s = .ok a t → a = v)
    (hf : Moves R (f v)) : Moves R (x >>= f) := fun s => by
  have hxs := hx s
  rw [bind_run]
  rcases h : x s with ⟨a, t⟩ | ⟨e, t⟩ | p
  · rw [h] at hxs
    rw [hv s a t h]
    exact (hf t).trans hxs
  · rwa [h] at hxs
  · trivial

omit [Platform] in
theorem lift_ofForeign_eq_ok {α β : Type} {R : Database → Database → Prop} [Std.Refl R]
    {x : Except String α} {f : α → Db β} (hf : ∀ a, x = .ok a → Moves R (f a)) :
    Moves R (lift (ofForeign x) >>= f) := moves_lift_bind fun a ha => hf a (ofForeign_eq_ok ha)

/-! ## NeonToken -/

theorem requests_createTargetToken {target : Pubkey} {account : AccountInfo}
    (haccount : Q d.actions (Platform.getAssociatedTokenAddress target B.neonTokenMint) account) :
    (NeonToken.createTargetToken B target account d).Within (Requests B caller Q I) d := by
  unfold NeonToken.createTargetToken
  by_cases howner : account.owner = Platform.splTokenId
  · rw [if_pos howner]
    exact moves_pure () d
  · rw [if_neg howner]
    exact requests_lift fun fee hfee hd =>
      .cons (fun _ => .targetToken target haccount howner hfee) (.of_eq hd rfl) rfl

theorem requests_withdraw (hQ : Tells B Q I) (target : Pubkey) (value : U256) :
    Moves (Requests B caller Q I)
      (NeonToken.withdraw B SYSTEM_ACCOUNT_NEON_TOKEN target value) := by
  refine moves_bind (moves_failIf _ _) fun _ => moves_failIf_bind fun hmax =>
    moves_failIf_bind fun hmod => requests_externalAccount hQ fun haccount =>
    requests_bind (requests_createTargetToken haccount) fun _ => lift_ofForeign_eq_ok fun i hi => ?_
  -- the transfer and the debit are one block
  refine fun d hd => .pair hd (.pool target ?_ ?_ hi rfl) fun h => absurd h Bool.false_ne_true
  · simpa using hmod
  · simpa using hmax

theorem requests_neonToken (hQ : Tells B Q I) {address : Address}
    (haddress : address = SYSTEM_ACCOUNT_NEON_TOKEN) (input : Bytes) :
    Moves (Requests B context.caller Q I)
      (NeonToken.neonToken B address input context isStatic) := by
  refine moves_failIf_bind fun hcontract => moves_bind (moves_lift _) fun _ => ?_
  have hcontract : context.contract = SYSTEM_ACCOUNT_NEON_TOKEN := by
    simpa [haddress] using hcontract
  refine moves_ite (fun _ => moves_ite (fun _ => moves_fail _) fun _ => ?_) fun _ => moves_fail _
  refine moves_bind (moves_lift _) fun _ => moves_bind ?_ fun _ => moves_pure _
  rw [hcontract]
  exact requests_withdraw hQ _ _

/-! ## SplToken -/

theorem requests_queueSigned {instruction : Pubkey → Except String Instruction}
    (h : ∀ i, instruction (callerKey B context.caller) = .ok i →
      TokenRequest B (callerKey B context.caller) i) :
    Moves (Requests B context.caller Q I) (SplToken.queueSigned B context instruction) :=
  lift_ofForeign_eq_ok fun i hi => moves_bind (requests_queue fun _ _ => .token (h i hi)) fun _ =>
    moves_pure _

theorem requests_transferWithSeed (seed : Bytes) (source target : Pubkey) (amount : ℕ) :
    Moves (Requests B context.caller Q I)
      (SplToken.transferWithSeed B context seed source target amount) :=
  lift_ofForeign_eq_ok fun _ hi =>
    moves_bind (requests_queue fun _ _ => .transferWithSeed seed hi) fun _ => moves_pure _

/-- **An account is made** — the rent that it lacks, its space and its owner are one block. -/
theorem requests_createAccount {seed : Bytes} {account : AccountInfo}
    (haccount : Q d.actions (dataKey B caller seed) account) (space : ℕ) :
    (SplToken.createAccount B account space (derivedSigner B caller CONTRACT_DATA_SEED seed)
      d).Within (Requests B caller Q I) d := by
  unfold SplToken.createAccount SplToken.payRent
  refine requests_lift fun minimum hminimum => ?_
  have make (c : Database) (hbelow : d.actions <+: c.actions) (hc : I c.cache.solanaAccounts) :
      Asks B caller Q I c { c with actions := (c.actions ++
        [queued (Platform.systemAllocate account.key space)
          (derivedSigner B caller CONTRACT_DATA_SEED seed) 0]) ++
        [queued (Platform.systemAssign account.key Platform.splTokenId)
          (derivedSigner B caller CONTRACT_DATA_SEED seed) 0] } :=
    .pair hc (.allocate seed ⟨_, hbelow, haccount⟩ hminimum) fun _ =>
      .assign seed ⟨_, hbelow.trans (List.prefix_append _ _), haccount⟩
  by_cases hlacks : 0 < minimum - account.lamports
  · have hlacks' : account.lamports < minimum := Nat.sub_pos_iff_lt.1 hlacks
    rw [if_pos hlacks]
    exact fun hd => .cons (fun _ => .rent seed haccount hminimum hlacks' rfl)
      (make _ (List.prefix_append _ _) hd)
      ((List.append_assoc _ _ _).trans (List.append_assoc _ _ _))
  · rw [if_neg hlacks]
    exact make d List.prefix_rfl

/-- **The account of a seed**, for what follows. -/
theorem requests_createSeededAccount {α : Type} (hQ : Tells B Q I) (seed : Bytes)
    (space : ℕ) {f : Pubkey → Db α}
    (hf : Moves (Requests B context.caller Q I) (f (dataKey B context.caller seed))) :
    Moves (Requests B context.caller Q I)
      (SplToken.createSeededAccount B context seed space >>= f) := by
  have hcreate : Moves (Requests B context.caller Q I)
      (SplToken.createSeededAccount B context seed space) := by
    refine requests_externalAccount hQ fun {d account} haccount => ?_
    have hmake := requests_bind (I := I) (requests_createAccount haccount space) fun _ =>
      moves_pure (dataKey B context.caller seed)
    rcases isSystemProgram account.owner
    · exact fun hd => .of_eq hd rfl
    · exact hmake
  refine moves_bind_of hcreate (fun s key t h => ?_) hf
  simp only [SplToken.createSeededAccount, bind_eq_ok, pure_eq_ok] at h
  obtain ⟨_, _, -, _, _, -, _, _, -, hkey, -⟩ := h
  exact hkey.symm

theorem requests_initializeMint (hQ : Tells B Q I) (seed : Bytes) (decimals : UInt8)
    (mintAuthority freezeAuthority : Option Pubkey) :
    Moves (Requests B context.caller Q I)
      (SplToken.initializeMint B context seed decimals mintAuthority freezeAuthority) :=
  requests_createSeededAccount hQ _ _ (lift_ofForeign_eq_ok fun _ hi =>
    moves_bind (requests_queue fun _ _ =>
      .initializeMint seed mintAuthority freezeAuthority decimals hi) fun _ => moves_pure _)

theorem requests_initializeAccount (hQ : Tells B Q I) (seed : Bytes) (mint : Pubkey)
    (owner : Option Pubkey) :
    Moves (Requests B context.caller Q I) (SplToken.initializeAccount B context seed mint owner) :=
  requests_createSeededAccount hQ _ _ (lift_ofForeign_eq_ok fun _ hi =>
    moves_bind (requests_queue fun _ _ => .initializeAccount seed mint owner hi) fun _ =>
      moves_pure _)

/-- A method that is refused in a static call. -/
theorem requests_guarded {α : Type} {address : Address} {x : Db α}
    (hx : Moves (Requests B context.caller Q I) x) :
    Moves (Requests B context.caller Q I)
      (if isStatic then fail (.staticModeViolation address) else x) :=
  moves_ite (fun _ => moves_fail _) fun _ => hx

theorem requests_splToken (hQ : Tells B Q I) (address : Address) (input : Bytes) :
    Moves (Requests B context.caller Q I)
      (SplToken.splToken B address input context isStatic) := by
  refine moves_bind (moves_failIf _ _) fun _ => moves_bind (moves_failIf _ _) fun _ =>
    moves_bind (moves_lift _) fun (selector, input) => ?_
  -- the methods that queue instructions, in the order of the source
  refine moves_ite (fun _ => requests_guarded ?_) fun _ => ?_
  · exact moves_bind (moves_lift _) fun _ => moves_bind (moves_lift _) fun _ =>
      requests_initializeMint hQ _ _ _ _
  refine moves_ite (fun _ => requests_guarded ?_) fun _ => ?_
  · exact moves_bind (moves_lift _) fun _ => moves_bind (moves_lift _) fun _ =>
      moves_bind (moves_lift _) fun _ => moves_bind (moves_lift _) fun _ =>
      requests_initializeMint hQ _ _ _ _
  refine moves_ite (fun _ => requests_guarded ?_) fun _ => ?_
  · exact moves_bind (moves_lift _) fun _ => moves_bind (moves_lift _) fun _ =>
      requests_initializeAccount hQ _ _ _
  refine moves_ite (fun _ => requests_guarded ?_) fun _ => ?_
  · exact moves_bind (moves_lift _) fun _ => moves_bind (moves_lift _) fun _ =>
      moves_bind (moves_lift _) fun _ => requests_initializeAccount hQ _ _ _
  refine moves_ite (fun _ => requests_guarded ?_) fun _ => ?_
  · exact moves_bind (moves_lift _) fun _ => requests_queueSigned fun _ => .closeAccount
  refine moves_ite (fun _ => requests_guarded ?_) fun _ => ?_
  · exact moves_bind (moves_lift _) fun _ => moves_bind (moves_lift _) fun _ =>
      moves_bind (moves_lift _) fun _ => requests_queueSigned fun _ => .approve
  refine moves_ite (fun _ => requests_guarded ?_) fun _ => ?_
  · exact moves_bind (moves_lift _) fun _ => requests_queueSigned fun _ => .revoke
  refine moves_ite (fun _ => requests_guarded ?_) fun _ => ?_
  · exact moves_bind (moves_lift _) fun _ => moves_bind (moves_lift _) fun _ =>
      moves_bind (moves_lift _) fun _ => requests_queueSigned fun _ => .transfer
  refine moves_ite (fun _ => requests_guarded ?_) fun _ => ?_
  · exact moves_bind (moves_lift _) fun _ => moves_bind (moves_lift _) fun _ =>
      moves_bind (moves_lift _) fun _ => moves_bind (moves_lift _) fun _ =>
      requests_transferWithSeed _ _ _ _
  refine moves_ite (fun _ => requests_guarded ?_) fun _ => ?_
  · exact moves_bind (moves_lift _) fun _ => moves_bind (moves_lift _) fun _ =>
      moves_bind (moves_lift _) fun _ => requests_queueSigned fun _ => .mintTo
  refine moves_ite (fun _ => requests_guarded ?_) fun _ => ?_
  · exact moves_bind (moves_lift _) fun _ => moves_bind (moves_lift _) fun _ =>
      moves_bind (moves_lift _) fun _ => requests_queueSigned fun _ => .burn
  refine moves_ite (fun _ => requests_guarded ?_) fun _ => ?_
  · exact moves_bind (moves_lift _) fun _ => moves_bind (moves_lift _) fun _ =>
      requests_queueSigned fun _ => .freeze
  refine moves_ite (fun _ => requests_guarded ?_) fun _ => ?_
  · exact moves_bind (moves_lift _) fun _ => moves_bind (moves_lift _) fun _ =>
      requests_queueSigned fun _ => .thaw
  -- the methods that read
  refine moves_ite (fun _ => moves_bind (moves_lift _) fun _ => moves_pure _) fun _ => ?_
  refine moves_ite (fun _ => moves_bind (moves_lift _) fun _ => ?_) fun _ => ?_
  · exact moves_bind (requests_of_grows hQ (moves_externalAccount _)) fun _ => moves_pure _
  refine moves_ite (fun _ => moves_bind (moves_lift _) fun _ => ?_) fun _ => ?_
  · exact moves_bind (requests_of_grows hQ (moves_readState _ _ _)) fun _ => moves_pure _
  refine moves_ite (fun _ => moves_bind (moves_lift _) fun _ => ?_) fun _ => moves_fail _
  · exact moves_bind (requests_of_grows hQ (moves_readState _ _ _)) fun _ => moves_pure _

/-! ## Metaplex -/

theorem requests_queueCreation {instruction : Pubkey → Instruction} {space : ℕ}
    (h : ∀ minimum, Platform.minimumBalance space = .ok minimum → ∀ before after,
      Request B context.caller Q before after (queued (instruction (callerKey B context.caller))
        (signerSeeds context.caller (B.solanaAddress context.caller).2)
        (wrappingAdd minimum Platform.createFee))) :
    Moves (Requests B context.caller Q I) (Metaplex.queueCreation B context instruction space) :=
  lift_ofForeign_eq_ok fun minimum hminimum => requests_queue (h minimum hminimum)

theorem requests_metaplex (hQ : Tells B Q I) (address : Address) (input : Bytes) :
    Moves (Requests B context.caller Q I)
      (Metaplex.metaplex B address input context isStatic) := by
  have read (mint : Pubkey) (f : Option Metadata → Bytes) :
      Moves (Requests B context.caller Q I)
        (Metaplex.metadata B mint >>= fun m => pure (f m)) :=
    moves_bind (requests_of_grows hQ (moves_metadata mint)) fun _ => moves_pure _
  refine moves_bind (moves_failIf _ _) fun _ => moves_bind (moves_failIf _ _) fun _ =>
    moves_bind (moves_lift _) fun (selector, input) => ?_
  refine moves_ite (fun _ => requests_guarded ?_) fun _ => ?_
  · exact moves_bind (moves_lift _) fun _ => moves_bind (moves_lift _) fun _ =>
      moves_bind (moves_lift _) fun _ => moves_bind (moves_lift _) fun _ =>
      moves_bind (requests_queueCreation fun _ h _ _ => .metadata _ _ _ _ h) fun _ => moves_pure _
  refine moves_ite (fun _ => requests_guarded ?_) fun _ => ?_
  · exact moves_bind (moves_lift _) fun _ => moves_bind (moves_lift _) fun _ =>
      moves_bind (requests_queueCreation fun _ h _ _ => .masterEdition _ _ h) fun _ => moves_pure _
  refine moves_ite (fun _ => moves_bind (moves_lift _) fun _ => read _ _) fun _ => ?_
  refine moves_ite (fun _ => moves_bind (moves_lift _) fun _ => read _ _) fun _ => ?_
  refine moves_ite (fun _ => moves_bind (moves_lift _) fun _ => read _ _) fun _ => ?_
  refine moves_ite (fun _ => moves_bind (moves_lift _) fun _ => read _ _) fun _ => ?_
  exact moves_ite (fun _ => moves_bind (moves_lift _) fun _ => read _ _) fun _ => moves_fail _

/-- **An extension asks for its caller only.** -/
theorem requests_callPrecompileExtension (hQ : Tells B Q I) {address : Address}
    {input : Bytes} {x : Db Bytes}
    (hx : callPrecompileExtension B context address input isStatic = some x) :
    Moves (Requests B context.caller Q I) x := by
  unfold callPrecompileExtension at hx
  split_ifs at hx with _ haddress
  · exact Option.some.inj hx ▸ requests_of_grows hQ (moves_queryAccount _ _)
  · exact Option.some.inj hx ▸ requests_neonToken hQ haddress _
  · exact Option.some.inj hx ▸ requests_splToken hQ _ _
  · exact Option.some.inj hx ▸ requests_metaplex hQ _ _

/-! ## What is known -/

/-- Nothing needs to be known. -/
theorem tells_nothing : Tells B (fun _ _ _ => True) fun _ => True :=
  ⟨fun _ _ => trivial, fun _ _ => trivial⟩

/-- **Copies of the backend's accounts** tell what is behind the journal, whatever is cached. -/
theorem tells_accountBehind (hB : Keyed B.cloneSolanaAccount) :
    Tells B (AccountBehind B) fun cached =>
      ∀ key info, cached key = some info → B.cloneSolanaAccount key = some info where
  grows h hd := h.cached_of hd
  read {d d' key account} hd h := by
    have halike := alike_externalAccount (B := B) key d ⟨(ExecutorState.new B).cache, d.actions⟩
      ⟨rfl, hd, cached_new B⟩
    rw [h] at halike
    refine ⟨keyed_externalAccount hB hd h, ?_⟩
    rcases hread : externalAccount B key ⟨(ExecutorState.new B).cache, d.actions⟩ with
      ⟨account', c⟩ | ⟨e, c⟩ | p
    · rw [hread] at halike
      obtain ⟨rfl, -⟩ := halike
      exact ⟨c, rfl⟩
    · rw [hread] at halike
      exact halike.elim
    · rw [hread] at halike
      exact halike.elim

end ExecutorState

end NeonEvm
