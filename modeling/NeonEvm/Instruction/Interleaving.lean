import NeonEvm.AccountStorage.Rent
import NeonEvm.Instruction.Protocol

/-!
# Instruction/Interleaving — transactions under way, side by side

    L ──instruction of the state s──▸ L' ──other programs──▸ L'' ──instruction of t──▸ …

Whoever calls the program, and whatever other programs do in between: an account is locked exactly
while one transaction under way has it on its list, until that transaction takes its next turn
nothing of the account changes but its balance, and the storage of contracts is that of the journals
that were applied.
-/

namespace NeonEvm

open Exec Packable ProgramAccountStorage

/-! ## What happens -/

section

variable [Platform] [Runtime] [RlpCrate] [Config] [Bincode] [Loader] {L L' : Ledger}

/-- What happens to the ledger: an instruction that names `s` first, other programs at work, or the
runtime removing an account that was emptied. -/
inductive Ledger.Happens : Option Pubkey → Ledger → Ledger → Prop
  | instruction {L L' : Ledger} {u : Unit} (env : Invoked) (infos : List AccountMeta)
      (instruction : Bytes) (h : processInstruction env infos instruction L = .ok u L') :
    Happens (infos[0]?.map (·.pubkey)) L L'
  | others {L L' : Ledger} (h : L.Foreign L') : Happens none L L'
  | purged {L L' : Ledger} (h : L.Purges L') : Happens none L L'

/-- A ledger that comes of one where nothing is ours yet. -/
def Ledger.Arises (L : Ledger) : Prop :=
  ∃ L₀ : Ledger, (∀ k, (L₀ k).owner ≠ programId) ∧
    Relation.ReflTransGen (fun L L' => ∃ s, Ledger.Happens s L L') L₀ L

/-- What the instructions of others make of a ledger, while no instruction names `s` first. -/
def Ledger.Meanwhile (s : Pubkey) : Ledger → Ledger → Prop :=
  Relation.ReflTransGen fun L L' => ∃ t, t ≠ some s ∧ Ledger.Happens t L L'

omit [RlpCrate] [Config] [Loader] in
/-- **Where nothing is ours**, nothing is locked. -/
theorem ordered_of_foreign (h : ∀ k, (L k).owner ≠ programId) : L.Ordered := by
  have hnone {τ : Type} [Packable τ] (k : Pubkey) : L.held τ k = none := if_neg (h k)
  have hclaims {s : Option Pubkey} {k : Pubkey} (hk : k ∈ L.claims s) : False := by
    rcases s with _ | s
    · exact hk
    · rw [Ledger.claims_of_none (hnone s)] at hk
      exact hk
  refine ⟨⟨fun {k d rest} hd => ?_, fun {k} hsome => ?_, fun {k} hsome => ?_⟩,
    ⟨fun {k} => ⟨?_, ?_⟩, fun {k s t} hs => (hclaims hs).elim⟩, fun {t d rest} hd => ?_⟩
  · rw [hnone] at hd
    cases hd
  · rw [hnone] at hsome
    cases hsome
  · rw [Ledger.paper, if_neg (h k)] at hsome
    cases hsome
  · rintro ⟨d, rest, hd, -⟩
    rw [hnone] at hd
    cases hd
  · rintro ⟨s, hs⟩
    exact (hclaims hs).elim
  · rw [hnone] at hd
    cases hd

variable [Runtime.Lawful] [Bincode.Lawful]

theorem Ledger.Happens.turn (hapart : KeysApart) (hbuilders : BuildersApart) (hbuild : NoTestBuild)
    {s : Option Pubkey} (hL : L.Ordered) (h : Ledger.Happens s L L') : L.Turn s L' := by
  cases h with
  | instruction env infos instruction h =>
    exact turn_processInstruction hapart hbuilders hbuild hL h
  | others h => exact h.aside.turn hL
  | purged h => exact (h.aside Runtime.Lawful.systemProgramId_ne).turn hL

/-- **Order is kept** by whatever happens. -/
theorem Ledger.Ordered.run (hapart : KeysApart) (hbuilders : BuildersApart) (hbuild : NoTestBuild)
    (hL : L.Ordered)
    (h : Relation.ReflTransGen (fun L L' => ∃ s, Ledger.Happens s L L') L L') : L'.Ordered := by
  induction h with
  | refl => exact hL
  | tail _ hstep ih =>
    obtain ⟨s, hs⟩ := hstep
    exact ((hs.turn hapart hbuilders hbuild ih).step ih).2

theorem Ledger.Arises.ordered (hapart : KeysApart) (hbuilders : BuildersApart)
    (hbuild : NoTestBuild) (h : L.Arises) : L.Ordered := by
  obtain ⟨L₀, hnone, hrun⟩ := h
  exact (ordered_of_foreign hnone).run hapart hbuilders hbuild hrun

/-- **Every ledger that arises has a history**: the storage of contracts is that of the journals
that were applied on the way. -/
theorem Ledger.Arises.history (hapart : KeysApart) (hbuilders : BuildersApart)
    (hbuild : NoTestBuild) (h : L.Arises) : ∃ journals, History journals L := by
  obtain ⟨L₀, hnone, hrun⟩ := h
  have hall : L.Ordered ∧ L₀.Recorded L := by
    induction hrun with
    | refl => exact ⟨ordered_of_foreign hnone, refl_of Ledger.Recorded L₀⟩
    | tail _ hstep ih =>
      obtain ⟨hordered, hrecorded⟩ := ih
      obtain ⟨s, hs⟩ := hstep
      have hturn := hs.turn hapart hbuilders hbuild hordered
      exact ⟨(hturn.step hordered).2, Trans.trans hrecorded hturn.recorded⟩
  exact hall.2 [] (.genesis hnone)

end

/-! ## A network

A platform, a runtime and a format to evaluate runs with. -/

/-- Addresses with a seed are below those of the accounts, and every signature is that of one
account. -/
@[reducible] def Platform.seeding : Platform :=
  { Platform.apart with
    createWithSeed := fun _ seed _ => BitVec.ofNat 256 (1 + seed.length % 15)
    secp256k1Recover := fun _ _ _ => some [] }

/-- A runtime whose system program creates accounts at derived addresses, too. -/
@[reducible] def Runtime.serving : Runtime :=
  { Runtime.paying with
    invoke := fun invocation seeds L =>
      match invocation with
      | .createAccount payer key lamports space owner =>
        if (L payer).owner = 0 ∧ lamports ≤ (L payer).lamports ∧ (L key).owner = 0 ∧
            payer ≠ key then
          .ok ((L.setLamports payer ((L payer).lamports - lamports)).set key
            ⟨lamports, owner, .raw (List.replicate space 0), false, 0⟩)
        else .error "create account"
      | _ => Runtime.paying.invoke invocation seeds L }

/-- An address on 20 bytes. -/
def Address.format : Chunks.Format UInt8 Address where
  size := 20
  pos := by decide
  encode := Address.bytes
  decode := addressAt
  length_encode _ := length_toBeBytes ..
  decode_encode a := by
    have ha : a.toNat < 256 ^ 20 := a.isLt.trans_eq (by decide)
    rw [addressAt, Address.bytes, ofBeBytes_toBeBytes, Nat.mod_eq_of_lt ha, BitVec.ofNat_toNat,
      BitVec.setWidth_eq]

/-- The address whose nonce an action increments. -/
def Action.incremented : Action → Option Address
  | .evmIncrementNonce address => some address
  | _ => none

/-- A format of journals that increment nonces; another journal is not brought back, and no machine
is. -/
@[reducible] def Bincode.nonces : Bincode where
  serializeState b :=
    if b.actions = (b.actions.filterMap Action.incremented).map .evmIncrementNonce then
      1 :: Address.format.row (b.actions.filterMap Action.incremented)
    else [0]
  deserializeState
    | 1 :: bytes => .ok ⟨⟨⟨fun _ => none, 0, 0⟩,
        (Address.format.read bytes).map .evmIncrementNonce⟩, [], none⟩
    | _ => .error "not supported"
  serializeMachine _ := []
  deserializeMachine _ := .error "not supported"

/-- The main network. -/
@[reducible] def Loader.main : Loader where
  nativeMintId := 0
  bpfLoaderUpgradeableId := 0
  deserializeProgramData _ := .ok none
  mainnet := true
  devnet := false
  testnet := false
  ci := false

theorem Bincode.nonces_lawful :
    let _ := Bincode.nonces
    Bincode.Lawful := by
  let _ := Bincode.nonces
  refine ⟨fun {b c} h => ?_⟩
  by_cases hb : b.actions = (b.actions.filterMap Action.incremented).map .evmIncrementNonce
  · have hbytes : Bincode.serializeState b =
        1 :: Address.format.row (b.actions.filterMap Action.incremented) := if_pos hb
    rw [hbytes] at h
    obtain rfl := Except.ok.inj h
    rw [Address.format.read_row]
    exact hb.symm
  · have hbytes : Bincode.serializeState b = [0] := if_neg hb
    rw [hbytes] at h
    cases h

/-- What comes back asks nobody. -/
theorem Bincode.nonces_asksOthers [Platform] [Runtime] {bytes : Bytes} {b : ExecutorState}
    (h : Bincode.nonces.deserializeState bytes = .ok b) : AsksOthers b.actions := by
  change (match bytes with
    | 1 :: bytes => Except.ok _
    | _ => _) = _ at h
  split at h
  · obtain rfl := Except.ok.inj h
    intro x hx
    obtain ⟨a, -, rfl⟩ := List.mem_map.1 hx
    trivial
  · cases h

theorem Platform.seeding_keysApart [Runtime] :
    let _ := Platform.seeding
    KeysApart := by
  let _ := Platform.seeding
  refine ⟨fun {a base seed} h => ?_, fun {a} h => ?_⟩
  · have ha : a.key.toNat = 16 + a.toNat := Platform.apart_key a
    have hseed : (Platform.createWithSeed base seed programId).toNat = 1 + seed.length % 15 :=
      Nat.mod_eq_of_lt (by omega)
    rw [h, hseed] at ha
    omega
  · have ha : a.key.toNat = 16 + a.toNat := Platform.apart_key a
    rw [h] at ha
    have hzero : (Platform.systemProgramId : Pubkey).toNat = 0 := rfl
    omega

/-- What contracts ask for is asked of others, wherever the program is at `9`. -/
theorem Platform.seeding_buildersApart [Runtime] (hid : programId = 9) :
    let _ := Platform.seeding
    BuildersApart := by
  let _ := Platform.seeding
  have other (id : Pubkey) (h : id ≠ 9) : id ≠ programId := hid ▸ h
  refine ⟨fun {B caller before after a} h => ?_, fun h => ?_, fun h => ?_⟩
  · cases h with
    | pool target hmod hmax h => cases h
    | token h => cases h <;> contradiction
    | transferWithSeed seed h => cases h
    | initializeMint seed mintAuthority freezeAuthority decimals h => cases h
    | initializeAccount seed mint owner h => cases h
    | rent | allocate | assign => exact other 0 (by decide)
    | targetToken target h => exact other 2 (by decide)
    | metadata | masterEdition => exact other 3 (by decide)
  · cases h
  · cases h

theorem Platform.seeding_lawful :
    let _ := Platform.seeding
    let _ := Runtime.bare
    Runtime.Lawful := by
  let _ := Platform.seeding
  let _ := Runtime.bare
  refine ⟨by decide, fun _ h => ?_, fun _ h => ?_⟩
  · cases h
  · cases h

theorem Runtime.serving_lawful :
    let _ := Platform.seeding
    let _ := Runtime.serving
    Runtime.Lawful := by
  let _ := Platform.seeding
  let _ := Runtime.serving
  have hzero : (0 : Pubkey) ≠ 9 := by decide
  have hpaying := Runtime.paying_pays.toLawful
  have invoke_cases {i : Invocation} {seeds : List Bytes} {L L' : Ledger}
      (h : Runtime.invoke i seeds L = .ok L') :
      Runtime.paying.invoke i seeds L = .ok L' ∨ ∃ payer key lamports space owner,
        (L key).owner = 0 ∧ L' = (L.setLamports payer ((L payer).lamports - lamports)).set key
          ⟨lamports, owner, .raw (List.replicate space 0), false, 0⟩ := by
    cases i with
    | createAccount payer key lamports space owner =>
      change (if _ then _ else _) = _ at h
      split_ifs at h with hfunds
      exact .inr ⟨payer, key, lamports, space, owner, hfunds.2.2.1, (Except.ok.inj h).symm⟩
    | _ => exact .inl h
  refine ⟨hzero, fun {i seeds L L' k} hi h howner => ?_, fun {i seeds L L' k} hi h howner howner' => ?_⟩
  · rcases invoke_cases h with h | ⟨payer, key, lamports, space, owner, hkey, rfl⟩
    · exact hpaying.keeps hi h howner
    · have hk : k ≠ key := fun hk => hzero (hkey.symm.trans (hk ▸ howner))
      rw [Ledger.set_of_ne hk]
      exact ⟨by rwa [Ledger.owner_setLamports], Ledger.content_setLamports⟩
  · rcases invoke_cases h with h | ⟨payer, key, lamports, space, owner, hkey, rfl⟩
    · exact hpaying.born hi h howner howner'
    · by_cases hk : k = key
      · rw [hk, Ledger.set_self]
        exact ⟨space, rfl⟩
      · rw [Ledger.set_of_ne hk, Ledger.owner_setLamports] at howner'
        exact (howner howner').elim

/-- A transaction under way at `11` has locked the account `17`, and its journal increments a nonce;
at `12` is a holder. -/
def lockedLedger : Ledger := fun k =>
  if k = 11 then
    ⟨10 ^ 9, 9, .state ⟨5, 0, 0, 0, 0, 0, 5, 0, 1, 21, 0⟩
      (BlockedAccountMeta.format.row [⟨17, true, true⟩] ++ 1 :: Address.format.row [1]), false, 0⟩
  else if k = 17 then
    ⟨10 ^ 9, 9, .ethereum { EthereumAccount.new 1 255 with rwBlocked := true } [], false, 0⟩
  else if k = 12 then ⟨10 ^ 9, 9, .holder ⟨5, 0, 0⟩ [], false, 0⟩
  else foreignLedger k

theorem lockedLedger_ordered :
    let _ := Platform.seeding
    let _ := Runtime.bare
    let _ := Bincode.nonces
    lockedLedger.Ordered := by
  let _ := Platform.seeding
  let _ := Runtime.bare
  let _ := Bincode.nonces
  show lockedLedger.Ordered
  have hstate {k : Pubkey} {e : State × Bytes} (h : lockedLedger.held State k = some e) :
      k = 11 := by
    by_contra hk
    rw [Ledger.held, lockedLedger, if_neg hk] at h
    split_ifs at h
    cases h
  have haccount {k : Pubkey} {e : EthereumAccount × Bytes}
      (h : lockedLedger.held EthereumAccount k = some e) : k = 17 := by
    by_contra hk
    rw [Ledger.held, lockedLedger] at h
    split_ifs at h
    cases h
  have hheld : lockedLedger.held EthereumAccount 17 =
      some ({ EthereumAccount.new 1 255 with rwBlocked := true }, []) := rfl
  have hstate₁₁ : lockedLedger.held State 11 = some (⟨5, 0, 0, 0, 0, 0, 5, 0, 1, 21, 0⟩,
      BlockedAccountMeta.format.row [⟨17, true, true⟩] ++ 1 :: Address.format.row [1]) := rfl
  have hlisted : State.listed ⟨5, 0, 0, 0, 0, 0, 5, 0, 1, 21, 0⟩
      (BlockedAccountMeta.format.row [⟨17, true, true⟩] ++ 1 :: Address.format.row [1]) = [⟨17, true, true⟩] := by
    decide +kernel
  have hclaims {s : Option Pubkey} {k : Pubkey} :
      k ∈ lockedLedger.claims s ↔ s = some 11 ∧ k = 17 := by
    rcases s with _ | s
    · exact ⟨fun hk => hk.elim, fun hk => (by cases hk.1)⟩
    · by_cases hs : s = 11
      · rw [hs, Ledger.claims_of_held hstate₁₁, hlisted]
        constructor
        · rintro ⟨m, hm, rfl, -⟩
          rw [List.mem_singleton.1 hm]
          exact ⟨rfl, rfl⟩
        · rintro ⟨-, rfl⟩
          exact ⟨_, List.mem_singleton_self _, rfl, rfl⟩
      · have hnone : lockedLedger.held State s = none := by
          rw [← Option.not_isSome_iff_eq_none]
          intro hsome
          obtain ⟨e, he⟩ := Option.isSome_iff_exists.1 hsome
          exact hs (hstate he)
        rw [Ledger.claims_of_none hnone]
        exact ⟨fun hk => hk.elim, fun hk => hs (Option.some.inj hk.1)⟩
  have hlocked {k : Pubkey} : k ∈ lockedLedger.locked ↔ k = 17 := by
    refine ⟨?_, fun hk => ⟨_, _, hk ▸ hheld, rfl⟩⟩
    rintro ⟨d, rest, hd, -⟩
    exact haccount hd
  refine ⟨⟨fun {k d rest} hd => ?_, fun {k} hsome => ?_, fun {k} hsome => ?_⟩,
    ⟨fun {k} => ?_, fun {k s t} hs ht => ?_⟩, fun {t d rest} _ {bytes b} _ hb => ?_⟩
  · obtain rfl := haccount hd
    obtain ⟨rfl, -⟩ := Prod.mk.inj (Option.some.inj (hheld.symm.trans hd))
    decide +kernel
  · rw [Ledger.held, lockedLedger] at hsome
    split_ifs at hsome <;> cases hsome
  · have hk : k = 11 ∨ k = 12 := by
      by_contra hk
      rw [not_or] at hk
      rw [Ledger.paper, lockedLedger, if_neg hk.1, if_neg hk.2] at hsome
      split_ifs at hsome <;> cases hsome
    rcases hk with rfl | rfl
    · exact ⟨0, List.replicate 10 0, by decide +kernel⟩
    · exact ⟨0, List.replicate 11 0, by decide +kernel⟩
  · refine hlocked.trans ⟨fun hk => ⟨some 11, hclaims.2 ⟨rfl, hk⟩⟩, ?_⟩
    rintro ⟨s, hs⟩
    exact (hclaims.1 hs).2
  · exact (hclaims.1 hs).1.trans (hclaims.1 ht).1.symm
  · exact Bincode.nonces_asksOthers hb

/-! ## One owner -/

section

variable [Platform] [Runtime] [RlpCrate] [Config] [Bincode] [Loader] [Runtime.Lawful]
  [Bincode.Lawful]

/-- **A lock has one owner**: an account is locked exactly while one transaction under way has it on
its list. -/
theorem locked_by_one (hapart : KeysApart) (hbuilders : BuildersApart) (hbuild : NoTestBuild)
    {L : Ledger}
    (h : L.Arises) (k : Pubkey) : k ∈ L.locked ↔ ∃! s, k ∈ L.claims (some s) := by
  have hexclusive := (h.ordered hapart hbuilders hbuild).exclusive
  refine hexclusive.locked.trans ⟨?_, ?_⟩
  · rintro ⟨_ | s, hs⟩
    · exact hs.elim
    · exact ⟨s, hs, fun t ht => Option.some.inj (hexclusive.unique ht hs)⟩
  · rintro ⟨s, hs, -⟩
    exact ⟨some s, hs⟩

end

/-- One who pays, and room for a holder. -/
def openLedger : Ledger := fun k =>
  if k = 5 then ⟨10 ^ 15, 0, .raw [], false, 0⟩
  else if k = 12 then ⟨10 ^ 9, 0, .raw [], false, 0⟩
  else foreignLedger k

/-- The account at `12` came to the program. -/
def roomLedger : Ledger := openLedger.set 12 ⟨10 ^ 9, 9, .raw (List.replicate 300 0), false, 0⟩

/-- A holder at `12`, an account at `16`, and a transaction of it to itself that begins. -/
def beginTransaction [Platform] [Runtime] [RlpCrate] [Config] [Bincode] [Loader] : Program Unit := do
  let env : Invoked := ⟨⟨0, 0⟩, 1, 0⟩
  let holder : AccountMeta := ⟨12, false, true⟩
  let ether : AccountMeta := ⟨16, false, true⟩
  let system : AccountMeta := ⟨0, false, false⟩
  let treasury : AccountMeta := ⟨(treasuryAddress 5).1, false, true⟩
  processInstruction env [holder, sender] (0x24 :: 11 :: List.replicate 7 0 ++ List.replicate 11 65)
  processInstruction env [sender, system, ether] (0x28 :: List.replicate 20 0)
  processInstruction env [holder, sender, treasury, ether, system, ⟨9, false, false⟩, ether]
    (0x20 :: 5 :: List.replicate 11 0 ++ [0xE3, 0x80, 0x80, 0x84, 255, 255, 255, 255, 0x94] ++
      List.replicate 20 0 ++ [0x80, 0x80, 0x82, 1, 1, 1, 1])

set_option maxRecDepth 10000 in
/-- A transaction has begun at `12` and locked the account `16`. -/
theorem locked_by_one_begun :
    let _ := Platform.seeding
    let _ := Runtime.serving
    let _ := Config.bare
    let _ := Bincode.nonces
    let _ := Loader.main
    let _ := RlpCrate.reference
    ∃ L : Ledger, L.Arises ∧ 16 ∈ L.locked ∧ 16 ∈ L.claims (some 12) ∧
      ∀ k, k ∈ L.locked ↔ ∃! s, k ∈ L.claims (some s) := by
  let _ := Platform.seeding
  let _ := Runtime.serving
  let _ := Config.bare
  let _ := Bincode.nonces
  let _ := Loader.main
  let _ := RlpCrate.reference
  have hok : (beginTransaction roomLedger).okAnd fun _ L => ((L.held EthereumAccount 16).any
      fun e => e.1.rwBlocked) && (L.held State 12).any fun e =>
        (e.1.listed e.2).any fun m => m.key = 16 && m.exists_ := by
    decide +kernel
  obtain ⟨_, L, hrun, hbegun⟩ := Outcome.exists_of_okAnd hok
  obtain ⟨hblocked, hlisted⟩ := Bool.and_eq_true_iff.1 hbegun
  have hlawful : Runtime.Lawful := Runtime.serving_lawful
  have hbuilders : BuildersApart := Platform.seeding_buildersApart rfl
  have hbincode : Bincode.Lawful := Bincode.nonces_lawful
  have hnone (k : Pubkey) : (openLedger k).owner ≠ programId := by
    rw [openLedger]
    split_ifs <;> exact (by decide : (0 : Pubkey) ≠ 9)
  have hroom : openLedger.Foreign roomLedger := by
    refine ⟨fun {k} hk => (hnone k hk).elim, fun {k} _ hk => ?_⟩
    by_cases hk12 : k = 12
    · exact ⟨300, by rw [hk12, roomLedger, Ledger.set_self]⟩
    · rw [roomLedger, Ledger.set_of_ne hk12] at hk
      exact (hnone k hk).elim
  obtain ⟨_, L₁, hholder, hrun⟩ := bind_eq_ok.1 hrun
  obtain ⟨_, L₂, haccount, hbegin⟩ := bind_eq_ok.1 hrun
  have harises : Ledger.Arises L :=
    ⟨openLedger, hnone, (((Relation.ReflTransGen.single ⟨none, .others hroom⟩).tail
      ⟨_, .instruction _ _ _ hholder⟩).tail ⟨_, .instruction _ _ _ haccount⟩).tail
        ⟨_, .instruction _ _ _ hbegin⟩⟩
  refine ⟨L, harises, ?_, ?_,
    locked_by_one Platform.seeding_keysApart hbuilders (.inl rfl) harises⟩
  · obtain ⟨⟨d, rest⟩, hd, hlocked⟩ := (Option.any_eq_true _ _).1 hblocked
    exact ⟨d, rest, hd, hlocked⟩
  · obtain ⟨⟨d, rest⟩, hd, hany⟩ := (Option.any_eq_true _ _).1 hlisted
    obtain ⟨m, hm, hkey⟩ := List.any_eq_true.1 hany
    obtain ⟨hkey, hexists⟩ := Bool.and_eq_true_iff.1 hkey
    exact ⟨d, rest, hd, m, hm, of_decide_eq_true hkey, hexists⟩

/-! ## What an instruction does to the locks -/

section

variable [Platform] [Runtime] [RlpCrate] [Config] [Bincode] [Loader] {L L' : Ledger} {u : Unit}

omit [RlpCrate] [Config] [Bincode] [Loader] in
/-- What `s` does to the locks: it takes some that were free, or gives all of its own back and is no
state any more. -/
def Ledger.Takes (s : Option Pubkey) (L L' : Ledger) : Prop :=
  (∃ ks, (∀ k ∈ ks, k ∉ L.locked) ∧ L'.locked = L.locked ∪ ks ∧ L'.claims s = L.claims s ∪ ks) ∨
    L'.locked = L.locked \ L.claims s ∧ L'.claims s = ∅ ∧ ∀ t, s = some t → L'.held State t = none

variable [Runtime.Lawful] [Bincode.Lawful]

/-- **An instruction** takes locks that were free and puts them on the list of its state, or opens
all locks on that list, and no others. -/
theorem locks_of_instruction (hapart : KeysApart) (hbuilders : BuildersApart)
    (hbuild : NoTestBuild) (hL : L.Ordered) {env : Invoked} {infos : List AccountMeta}
    {instruction : Bytes} (h : processInstruction env infos instruction L = .ok u L') :
    L.Takes (infos[0]?.map (·.pubkey)) L' :=
  (turn_processInstruction hapart hbuilders hbuild hL h).locks

end

set_option maxRecDepth 10000 in
/-- The transaction is cancelled, and the account `17` is free. -/
theorem locks_of_instruction_cancel :
    let _ := Platform.seeding
    let _ := Runtime.bare
    let _ := Config.bare
    let _ := Bincode.nonces
    let _ := Loader.main
    let _ := RlpCrate.reference
    ∃ L', 17 ∉ L'.locked ∧ lockedLedger.Takes (some 11) L' := by
  let _ := Platform.seeding
  let _ := Runtime.bare
  let _ := Config.bare
  let _ := Bincode.nonces
  let _ := Loader.main
  let _ := RlpCrate.reference
  have hok : (processInstruction ⟨⟨0, 0⟩, 1, 0⟩
      [⟨11, false, true⟩, sender, ⟨4, false, true⟩, ⟨17, false, true⟩]
      (0x23 :: List.replicate 32 0) lockedLedger).okAnd fun _ L' =>
        (L'.held EthereumAccount 17).any fun e => !e.1.rwBlocked := by
    decide +kernel
  obtain ⟨_, L', hrun, hfree⟩ := Outcome.exists_of_okAnd hok
  have hlawful : Runtime.Lawful := Platform.seeding_lawful
  have hbuilders : BuildersApart := Platform.seeding_buildersApart rfl
  have hbincode : Bincode.Lawful := Bincode.nonces_lawful
  refine ⟨L', ?_, locks_of_instruction Platform.seeding_keysApart hbuilders (.inl rfl)
    lockedLedger_ordered hrun⟩
  rintro ⟨d, rest, hd, hlocked⟩
  rw [hd] at hfree
  exact absurd hlocked (by simpa using hfree)

/-! ## While others work -/

section

variable [Platform] [Runtime] [RlpCrate] [Config] [Bincode] [Loader] {L L' : Ledger}
  [Runtime.Lawful] [Bincode.Lawful]

/-- **While others work**, a transaction under way keeps its state with everything that is saved in
it, and what it has locked stays as it is, with its storage, but for the balances. -/
theorem kept_meanwhile (hapart : KeysApart) (hbuilders : BuildersApart) (hbuild : NoTestBuild)
    (hL : L.Ordered) {s : Pubkey} (hrun : L.Meanwhile s L') :
    L'.held State s = L.held State s ∧ L'.claims (some s) = L.claims (some s) ∧
      ∀ k ∈ L.claims (some s), k ∈ L'.locked ∧ L'.property k = L.property k := by
  have hall : L'.Ordered ∧ L'.held State s = L.held State s ∧
      Relation.ReflTransGen (fun T T' => ∃ t, t ≠ some s ∧ Leases.Respects t T T') L.leases
        L'.leases := by
    induction hrun with
    | refl => exact ⟨hL, rfl, .refl⟩
    | tail _ hstep ih =>
      obtain ⟨t, ht, hhappens⟩ := hstep
      obtain ⟨hordered, hstate, hrun⟩ := ih
      have hturn := hhappens.turn hapart hbuilders hbuild hordered
      exact ⟨(hturn.step hordered).2, (hturn.states s ht.symm).trans hstate,
        hrun.tail ⟨t, ht, hturn.respects hordered⟩⟩
  obtain ⟨hordered, hstate, hrun⟩ := hall
  obtain ⟨hclaims, hvalue⟩ := Leases.Respects.run hrun
  refine ⟨hstate, hclaims, fun k hk => ⟨?_, hvalue k hk⟩⟩
  have hk' : k ∈ L'.leases.claims (some s) := hclaims.symm ▸ hk
  exact hordered.exclusive.isLocked hk'

end

set_option maxRecDepth 10000 in
/-- A holder is deleted, and the account `17` stays locked by `11`. -/
theorem kept_meanwhile_holder :
    let _ := Platform.seeding
    let _ := Runtime.bare
    let _ := Config.bare
    let _ := Bincode.nonces
    let _ := Loader.main
    let _ := RlpCrate.reference
    ∃ L', Ledger.Meanwhile 11 lockedLedger L' ∧ (L'.held Holder 12).isNone = true ∧
      L'.held State 11 = lockedLedger.held State 11 ∧ 17 ∈ L'.locked := by
  let _ := Platform.seeding
  let _ := Runtime.bare
  let _ := Config.bare
  let _ := Bincode.nonces
  let _ := Loader.main
  let _ := RlpCrate.reference
  have hok : (processInstruction ⟨⟨0, 0⟩, 1, 0⟩ [⟨12, false, true⟩, sender] [0x25]
      lockedLedger).okAnd fun _ L' => (L'.held Holder 12).isNone := by
    decide +kernel
  obtain ⟨_, L', hrun, hgone⟩ := Outcome.exists_of_okAnd hok
  have hlawful : Runtime.Lawful := Platform.seeding_lawful
  have hbuilders : BuildersApart := Platform.seeding_buildersApart rfl
  have hbincode : Bincode.Lawful := Bincode.nonces_lawful
  have hmeanwhile : Ledger.Meanwhile 11 lockedLedger L' :=
    .single ⟨some 12, by decide, .instruction _ _ _ hrun⟩
  obtain ⟨hstate, -, hkept⟩ := kept_meanwhile Platform.seeding_keysApart hbuilders (.inl rfl)
    lockedLedger_ordered hmeanwhile
  exact ⟨L', hmeanwhile, hgone, hstate, (hkept 17 ⟨_, _, rfl, by decide +kernel⟩).1⟩

end NeonEvm
