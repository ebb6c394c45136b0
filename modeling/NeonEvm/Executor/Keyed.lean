import NeonEvm.Executor.Reads

/-!
# Executor/Keyed — an account stands under its own key

    backend · cache · copies of an emulation      each k ↦ an account whose key is k

The emulated programs write an account back under the key that they took it from, and change its
data, its owner and its lamports only.  So the account that is answered for a key is that key's, and
none is missing that was supplied.
-/

namespace NeonEvm

open Exec

/-- **Each account stands under its own key.** -/
def Keyed (accounts : SolanaAccounts) : Prop :=
  ∀ key info, accounts key = some info → info.key = key

theorem keyed_none : Keyed fun _ => none := nofun

theorem Keyed.update {accounts : SolanaAccounts} (h : Keyed accounts) {key : Pubkey}
    {info : AccountInfo} (hinfo : info.key = key) :
    Keyed (Function.update accounts key (some info)) := fun key' info' h' => by
  by_cases hkey : key' = key
  · subst hkey
    rw [Function.update_self] at h'
    rwa [← Option.some.inj h']
  · rw [Function.update_of_ne hkey] at h'
    exact h key' info' h'

theorem AccountInfo.owned_key (programId : Pubkey) (info : AccountInfo) :
    (info.owned programId).key = info.key := by
  unfold owned
  split <;> rfl

/-- Keyed accounts stay keyed, and none is lost. -/
def StaysKeyed (accounts accounts' : SolanaAccounts) : Prop :=
  Keyed accounts → Keyed accounts' ∧ ∀ key, (accounts key).isSome → (accounts' key).isSome

instance : Std.Refl StaysKeyed := ⟨fun _ h => ⟨h, fun _ hk => hk⟩⟩

instance : IsTrans SolanaAccounts StaysKeyed := ⟨fun _ _ _ h h' hs =>
  ⟨(h' (h hs).1).1, fun key hk => (h' (h hs).1).2 key ((h hs).2 key hk)⟩⟩

/-! ## The emulated programs -/

/-- Of accounts that are not keyed there is nothing to show. -/
theorem staysKeyed_of {α : Type} {x : Emulation α}
    (h : ∀ accounts, Keyed accounts → (x accounts).Within StaysKeyed accounts) :
    Moves StaysKeyed x := fun accounts => by
  by_cases hkeyed : Keyed accounts
  · exact h accounts hkeyed
  · cases x accounts with
    | ok a t => exact fun h => absurd h hkeyed
    | err e t => exact fun h => absurd h hkeyed
    | panic p => trivial

/-- **An account that is taken** is the one of its key. -/
theorem staysKeyed_accountOf {α : Type} {key : Pubkey} {f : AccountInfo → Emulation α}
    (h : ∀ info, info.key = key → Moves StaysKeyed (f info)) :
    Moves StaysKeyed (accountOf key >>= f) := staysKeyed_of fun accounts hkeyed => by
  show Outcome.Within StaysKeyed accounts
    ((ofOption Fault.unwrap (accounts key) : Emulation AccountInfo) accounts |>.andThen f)
  rcases hinfo : accounts key with _ | info
  · trivial
  · exact h info (hkeyed key info hinfo) accounts

theorem staysKeyed_putAccount {key : Pubkey} {info : AccountInfo} (h : info.key = key) :
    Moves StaysKeyed (putAccount key info) := moves_modify fun _ hkeyed =>
  ⟨hkeyed.update h, fun key' hk => by
    by_cases hkey : key' = key
    · rw [hkey, Function.update_self]
      rfl
    · rwa [Function.update_of_ne hkey]⟩

theorem staysKeyed_refuse {α : Type} (text : String) :
    Moves StaysKeyed (refuse text : Emulation α) := moves_fail _

/-- Behind a test that refuses. -/
theorem staysKeyed_test {α : Type} {c : Prop} [Decidable c] {text : String}
    {f : Unit → Emulation α} (h : Moves StaysKeyed (f ())) :
    Moves StaysKeyed (if c then refuse text >>= f else f ()) :=
  moves_ite (fun _ => moves_fail _) fun _ => h

theorem staysKeyed_metaKey (metas : List AccountMeta) (i : ℕ) :
    Moves StaysKeyed (metaKey metas i) := moves_ofOption _ _

theorem staysKeyed_serializeInto (key : Pubkey) (bytes : Bytes) :
    Moves StaysKeyed (serializeInto key bytes) :=
  staysKeyed_accountOf fun _ h => staysKeyed_test <| staysKeyed_putAccount h

section

variable [Platform]

namespace SystemProgram

theorem staysKeyed_createAccount (metas : List AccountMeta) (lamports space : ℕ) (owner : Pubkey) :
    Moves StaysKeyed (createAccount metas lamports space owner) :=
  moves_bind (staysKeyed_metaKey _ _) fun _ => moves_bind (staysKeyed_metaKey _ _) fun _ =>
    staysKeyed_accountOf fun _ hfunder => staysKeyed_test <|
    moves_bind (staysKeyed_putAccount hfunder) fun _ => staysKeyed_accountOf fun _ haccount =>
    staysKeyed_test <| staysKeyed_putAccount haccount

theorem staysKeyed_assign (metas : List AccountMeta) (owner : Pubkey) :
    Moves StaysKeyed (assign metas owner) :=
  moves_bind (staysKeyed_metaKey _ _) fun _ => staysKeyed_accountOf fun _ h =>
    staysKeyed_test <| staysKeyed_putAccount h

theorem staysKeyed_transfer (metas : List AccountMeta) (lamports : ℕ) :
    Moves StaysKeyed (transfer metas lamports) :=
  moves_bind (staysKeyed_metaKey _ _) fun _ => moves_bind (staysKeyed_metaKey _ _) fun _ =>
    staysKeyed_accountOf fun _ hsource => staysKeyed_test <|
    staysKeyed_test <| staysKeyed_test <|
    moves_bind (staysKeyed_putAccount hsource) fun _ => staysKeyed_accountOf fun _ htarget =>
    staysKeyed_putAccount htarget

theorem staysKeyed_allocate (metas : List AccountMeta) (space : ℕ) :
    Moves StaysKeyed (allocate metas space) :=
  moves_bind (staysKeyed_metaKey _ _) fun _ => staysKeyed_accountOf fun _ h =>
    staysKeyed_test <| staysKeyed_putAccount h

theorem staysKeyed_emulate (instruction : Bytes) (metas : List AccountMeta) :
    Moves StaysKeyed (emulate instruction metas) := moves_bind (moves_ofOption _ _) fun i => by
  cases i with
  | createAccount lamports space owner => exact staysKeyed_createAccount _ _ _ _
  | assign owner => exact staysKeyed_assign _ _
  | transfer lamports => exact staysKeyed_transfer _ _
  | allocate space => exact staysKeyed_allocate _ _
  | other => exact staysKeyed_refuse _

end SystemProgram

namespace TokenProgram

omit [Platform] in
theorem staysKeyed_instructionAccounts (metas : List AccountMeta) :
    Moves StaysKeyed (instructionAccounts metas) := by
  unfold instructionAccounts
  induction metas with
  | nil => exact moves_pure _
  | cons a metas ih =>
    exact moves_bind (moves_bind moves_get fun _ => moves_bind (moves_ofOption _ _) fun _ =>
      moves_pure _) fun _ => moves_bind ih fun _ => moves_pure _

omit [Platform] in
theorem staysKeyed_leave (info : AccountInfo) : Moves StaysKeyed (leave info) :=
  staysKeyed_accountOf fun _ h => staysKeyed_putAccount h

omit [Platform] in
theorem staysKeyed_process (x : Processed) (infos : List AccountInfo) :
    Moves StaysKeyed (process x infos) := by
  unfold process
  rcases x infos with _ | text | infos
  · exact moves_abort
  · exact staysKeyed_refuse _
  · exact moves_foldl (fun _ info => staysKeyed_leave info) () infos

theorem staysKeyed_emulate (instruction : Bytes) (metas : List AccountMeta) :
    Moves StaysKeyed (emulate instruction metas) :=
  moves_bind (staysKeyed_instructionAccounts _) fun _ => moves_bind (moves_lift _) fun i => by
    rcases processorOf i with _ | x
    · exact staysKeyed_refuse _
    · exact staysKeyed_process _ _

end TokenProgram

theorem AssociatedToken.staysKeyed_emulate (instruction : Bytes) (metas : List AccountMeta) :
    Moves StaysKeyed (emulate instruction metas) := by
  unfold emulate
  refine staysKeyed_test (moves_bind (staysKeyed_metaKey _ _) fun _ => ?_)
  refine moves_bind (staysKeyed_metaKey _ _) fun _ =>
    moves_bind (staysKeyed_metaKey _ _) fun _ => moves_bind (staysKeyed_metaKey _ _) fun _ =>
    moves_bind (staysKeyed_metaKey _ _) fun _ => ?_
  refine moves_bind moves_get fun _ => moves_bind (moves_ofOption _ _) fun _ =>
    moves_bind (moves_lift _) fun _ => staysKeyed_accountOf fun _ hfunder => staysKeyed_test ?_
  refine moves_bind (staysKeyed_putAccount hfunder) fun _ => staysKeyed_accountOf fun _ htoken =>
    staysKeyed_test ?_
  exact moves_bind (staysKeyed_putAccount htoken) fun _ => moves_bind (moves_lift _) fun _ =>
    TokenProgram.staysKeyed_emulate _ _

namespace TokenMetadataProgram

theorem staysKeyed_takeOver (key : Pubkey) (len : ℕ) : Moves StaysKeyed (takeOver key len) :=
  moves_bind (moves_lift _) fun _ => staysKeyed_accountOf fun _ h =>
    moves_bind (staysKeyed_putAccount h) fun _ => moves_pure _

omit [Platform] in
/-- An account that is only read. -/
theorem staysKeyed_read {α : Type} {key : Pubkey} {f : AccountInfo → Emulation α}
    (h : ∀ info, Moves StaysKeyed (f info)) : Moves StaysKeyed (accountOf key >>= f) :=
  staysKeyed_accountOf fun info _ => h info

theorem staysKeyed_createMetadataAccountsV3 (metas : List AccountMeta) (data : MetadataDataV2)
    (isMutable : Bool) : Moves StaysKeyed (createMetadataAccountsV3 metas data isMutable) :=
  moves_bind (staysKeyed_metaKey _ _) fun _ => moves_bind (staysKeyed_metaKey _ _) fun _ =>
    moves_bind (moves_ofOption _ _) fun _ => moves_bind (staysKeyed_takeOver _ _) fun _ =>
    moves_bind (moves_lift _) fun _ => staysKeyed_read fun _ => moves_bind (moves_lift _) fun _ =>
    moves_bind (moves_lift _) fun _ => moves_bind (moves_lift _) fun _ =>
    moves_bind (moves_lift _) fun _ => staysKeyed_serializeInto _ _

theorem staysKeyed_createMasterEditionV3 (metas : List AccountMeta) (maxSupply : Option ℕ) :
    Moves StaysKeyed (createMasterEditionV3 metas maxSupply) :=
  moves_bind (staysKeyed_metaKey _ _) fun _ => moves_bind (staysKeyed_metaKey _ _) fun _ =>
    moves_bind (staysKeyed_metaKey _ _) fun _ => staysKeyed_read fun _ =>
    moves_bind (moves_lift _) fun _ => staysKeyed_read fun _ => moves_bind (moves_lift _) fun _ =>
    staysKeyed_test <| staysKeyed_test <|
    staysKeyed_test <| moves_bind (staysKeyed_takeOver _ _) fun _ =>
    moves_bind (staysKeyed_serializeInto _ _) fun _ =>
    moves_bind (staysKeyed_serializeInto _ _) fun _ => staysKeyed_accountOf fun _ h =>
    moves_bind (moves_assertThat _ _) fun _ => staysKeyed_putAccount h

theorem staysKeyed_emulate (instruction : Bytes) (metas : List AccountMeta) :
    Moves StaysKeyed (emulate instruction metas) := moves_bind (moves_lift _) fun i => by
  cases i with
  | createMetadataAccountV3 data isMutable => exact staysKeyed_createMetadataAccountsV3 _ _ _
  | createMasterEditionV3 maxSupply => exact staysKeyed_createMasterEditionV3 _ _
  | other => exact staysKeyed_refuse _

end TokenMetadataProgram

/-- **Every emulated instruction** keeps the keys. -/
theorem staysKeyed_emulateExternal (programId : Pubkey) (data : Bytes) (metas : List AccountMeta) :
    Moves StaysKeyed (emulateExternal programId data metas) :=
  moves_ite (fun _ => SystemProgram.staysKeyed_emulate _ _) fun _ =>
    moves_ite (fun _ => TokenProgram.staysKeyed_emulate _ _) fun _ =>
    moves_ite (fun _ => AssociatedToken.staysKeyed_emulate _ _) fun _ =>
    moves_ite (fun _ => TokenMetadataProgram.staysKeyed_emulate _ _) fun _ => moves_fail _

namespace ExecutorState

theorem staysKeyed_emulateActions (actions : List Action) :
    Moves StaysKeyed (emulateActions actions) := by
  induction actions with
  | nil => exact moves_pure _
  | cons a actions ih =>
    cases a with
    | externalInstruction => exact moves_bind (staysKeyed_emulateExternal _ _ _) fun _ => ih
    | _ => exact ih

/-! ## Reading an account -/

variable {B : AccountStorage} {d d' : Database} {key : Pubkey} {info : AccountInfo}

omit [Platform] in
theorem keyed_cachedAccount (hB : Keyed B.cloneSolanaAccount) (hd : Cached B d)
    (h : cachedAccount B key d = .ok info d') : info.key = key := by
  have hrun := cachedAccount_run key hd
  rw [h] at hrun
  exact hB key info hrun.1

/-- The copies that an emulation starts from. -/
def copies (B : AccountStorage) (metas : List AccountMeta) : SolanaAccounts := fun key =>
  if key ∈ metas.map AccountMeta.pubkey then B.cloneSolanaAccount key else none

omit [Platform] in
theorem copies_concat {metas : List AccountMeta} {m : AccountMeta}
    (h : B.cloneSolanaAccount m.pubkey = some info) :
    Function.update (copies B metas) m.pubkey (some info) = copies B (metas ++ [m]) := by
  funext key
  unfold copies
  rw [List.map_append, List.map_singleton]
  by_cases hkey : key = m.pubkey
  · rw [hkey, Function.update_self, if_pos (List.mem_append_right _ (List.mem_singleton_self _)), h]
  · have hmem : key ∈ metas.map AccountMeta.pubkey ++ [m.pubkey] ↔
        key ∈ metas.map AccountMeta.pubkey := by
      rw [List.mem_append, List.mem_singleton, or_iff_left hkey]
    rw [Function.update_of_ne hkey, if_congr hmem rfl rfl]

omit [Platform] in
theorem keyed_copies (hB : Keyed B.cloneSolanaAccount) (metas : List AccountMeta) :
    Keyed (copies B metas) := fun key info h => by
  unfold copies at h
  split_ifs at h
  exact hB key info h

omit [Platform] in
/-- **The copies are taken** if every account is supplied. -/
theorem collectAccounts_run (hd : Cached B d) (metas : List AccountMeta) :
    (collectAccounts B metas d).Sat
      (fun accounts d' => accounts = copies B metas ∧ Cached B d' ∧
        ∀ m ∈ metas, (B.cloneSolanaAccount m.pubkey).isSome)
      (fun _ _ => False) fun _ => ∃ m ∈ metas, B.cloneSolanaAccount m.pubkey = none := by
  induction metas using List.reverseRecOn with
  | nil => exact ⟨rfl, hd, fun _ h => by cases h⟩
  | append_singleton metas m ih =>
    rw [collectAccounts, foldl_concat, ← collectAccounts]
    rcases hmetas : collectAccounts B metas d with ⟨accounts, c⟩ | ⟨e, c⟩ | p
    · rw [hmetas] at ih
      obtain ⟨rfl, hc, hsome⟩ := ih
      have hrun := cachedAccount_run m.pubkey hc
      rw [Outcome.ok_andThen, bind_run]
      rcases hm : cachedAccount B m.pubkey c with ⟨info, c'⟩ | ⟨e, c'⟩ | p
      · rw [hm] at hrun
        refine ⟨copies_concat hrun.1, hrun.2.2, fun m' hm' => ?_⟩
        rcases List.mem_append.1 hm' with hm' | hm'
        · exact hsome m' hm'
        · rw [List.mem_singleton.1 hm', hrun.1]
          rfl
      · rw [hm] at hrun
        exact hrun.elim
      · rw [hm] at hrun
        exact ⟨m, List.mem_append_right _ (List.mem_singleton_self m), hrun.2⟩
    · rw [hmetas] at ih
      exact ih.elim
    · rw [hmetas] at ih
      obtain ⟨m', hm', hnone⟩ := ih
      exact ⟨m', List.mem_append_left _ hm', hnone⟩

omit [Platform] in
theorem keyed_collectAccounts (hB : Keyed B.cloneSolanaAccount) (hd : Cached B d)
    {metas : List AccountMeta} {accounts : SolanaAccounts}
    (h : collectAccounts B metas d = .ok accounts d') : Keyed accounts := by
  have hrun := collectAccounts_run hd metas
  rw [h] at hrun
  exact hrun.1 ▸ keyed_copies hB metas

/-- **The account of a key** bears it. -/
theorem keyed_externalAccount (hB : Keyed B.cloneSolanaAccount) (hd : Cached B d)
    (h : externalAccount B key d = .ok info d') : info.key = key := by
  simp only [externalAccount, bind_eq_ok, gets_eq_ok] at h
  obtain ⟨_, _, ⟨rfl, rfl⟩, h⟩ := h
  split at h
  · exact keyed_cachedAccount hB hd h
  · simp only [bind_eq_ok, ofOption_eq_ok] at h
    obtain ⟨accounts, c, hcollect, accounts', c', hrun, hinfo, -⟩ := h
    have hkeyed := keyed_collectAccounts hB hd hcollect
    have hemulate := staysKeyed_emulateActions d.actions accounts
    unfold runEmulation at hrun
    rcases hend : emulateActions d.actions accounts with ⟨_, left⟩ | ⟨e, left⟩ | p
    · rw [hend] at hrun hemulate
      obtain ⟨rfl, rfl⟩ := Outcome.ok.inj hrun
      exact (hemulate hkeyed).1 key info hinfo
    · rw [hend] at hrun
      cases hrun
    · rw [hend] at hrun
      cases hrun

end ExecutorState

end

end NeonEvm
