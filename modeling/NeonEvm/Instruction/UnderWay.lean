import NeonEvm.Instruction.Process
import NeonEvm.Instruction.Turns

/-!
# Instruction/UnderWay — the turns of a transaction

    execute     free accounts only
    begin       lock what is on the list
    continue    work on what is locked · finish: unlock it

The first works on no state, the others are turns of the state that they work on.
-/

namespace NeonEvm

open Exec Packable ProgramAccountStorage

variable [Platform] [Runtime]

/-! ## The accounts of an instruction -/

/-- The accounts as they are when the instruction begins. -/
structure StepAccounts.At (accounts : StepAccounts) (L : Ledger) : Prop where
  operator : (L accounts.operator.pubkey).owner = Platform.systemProgramId
  ether : L.held EthereumAccount accounts.operatorEtherInfo.pubkey =
    some (accounts.operatorEther, accounts.operatorEtherRest)
  system : accounts.systemProgram.pubkey = Platform.systemProgramId

/-- The operator's Ethereum account is loaded, or it is not supplied and only its balance has
changed. -/
def ProgramAccountStorage.CanPay (S : ProgramAccountStorage) (accounts : StepAccounts) : Prop :=
  accounts.operatorEther.address ∉ S.ethereumAccounts →
    accounts.operatorEtherInfo.pubkey ∉ S.solanaAccounts ∧
      ∃ b, S.ledger.held EthereumAccount accounts.operatorEtherInfo.pubkey =
        some ({ accounts.operatorEther with balance := b }, accounts.operatorEtherRest)

variable {L L' : Ledger} {S S' : ProgramAccountStorage} {accounts : StepAccounts} {u : Unit}

/-- Who reads its operator looks at the account. -/
def ReadsOperator (operatorFrom : AccountMeta → Program Pubkey) : Prop :=
  ∀ {info L p L'}, operatorFrom info L = .ok p L' →
    L = L' ∧ p = info.pubkey ∧ (L info.pubkey).owner = Platform.systemProgramId

theorem StepAccounts.read_ok {operatorFrom : AccountMeta → Program Pubkey}
    (hoperator : ReadsOperator operatorFrom) {treasuryIndex first : ℕ} {infos : List AccountMeta}
    (h : read operatorFrom treasuryIndex infos first L = .ok accounts L') :
    L = L' ∧ accounts.At L := by
  simp only [read, bind_eq_ok, ofOption_eq_ok, pure_eq_ok] at h
  obtain ⟨operator, _, ⟨-, rfl⟩, _, _, hop, _, _, ⟨-, rfl⟩, treasury, _, htreasury, info, _,
    ⟨-, rfl⟩, ⟨ether, rest⟩, _, hether, _, _, ⟨-, rfl⟩, system, _, hsystem, _, _, ⟨-, rfl⟩, _, _,
    hneon, rfl, rfl⟩ := h
  obtain ⟨rfl, rfl, howner⟩ := hoperator hop
  obtain rfl := (reads_treasuryFromAccount _ _).returns _ _ _ htreasury
  obtain ⟨rfl, hheld⟩ := openAccount_ok hether
  have hread := (reads_programFromAccount _ _).returns _ _ _ hneon
  simp only [programFromAccount, bind_eq_ok, failIf_eq_ok, pure_eq_ok] at hsystem
  obtain ⟨_, _, ⟨hkey, rfl⟩, rfl, rfl⟩ := hsystem
  exact ⟨hread, howner, hheld, by simpa using hkey⟩

namespace ProgramAccountStorage

/-- What is loaded can pay. -/
theorem Loads.canPay {operator : AccountMeta} {system : Option AccountMeta}
    {infos : List AccountMeta} (h : Loads operator system infos L S) (hat : accounts.At L) :
    S.CanPay accounts := by
  refine fun haddress => ⟨fun hk => haddress ?_, accounts.operatorEther.balance, ?_⟩
  · exact AList.lookup_isSome.1 (h.handle hk hat.ether ▸ rfl)
  · exact (h.clears.account _).trans hat.ether

theorem CanPay.within {P : Pubkey → Prop} (h : S.CanPay accounts)
    (hwithin : S.ledger.Within (· ∈ S.solanaAccounts) P L) :
    ({ S with ledger := L } : ProgramAccountStorage).CanPay accounts := by
  intro haddress
  obtain ⟨hk, b, hd⟩ := h haddress
  obtain ⟨d', rest', hd', -, hframe⟩ := hwithin.account hd
  obtain ⟨heq, rfl⟩ := hframe hk
  exact ⟨hk, d'.balance, by rw [hd', heq]⟩

theorem CanPay.worked (h : S.CanPay accounts) (hS : S.Worked S') : S'.CanPay accounts := by
  intro haddress
  have hbefore : accounts.operatorEther.address ∉ S.ethereumAccounts := by
    intro hmem
    obtain ⟨k, hk⟩ := Option.isSome_iff_exists.1 (AList.lookup_isSome.2 hmem)
    exact haddress (AList.lookup_isSome.1 (hS.grows hk ▸ rfl))
  obtain ⟨hk, hheld⟩ := h.within hS.within hbefore
  exact ⟨hS.supplied ▸ hk, hheld⟩

/-- **No supplied account is locked** where the check passes. -/
theorem Loads.free {operator : AccountMeta} {system : Option AccountMeta}
    {infos : List AccountMeta} (h : Loads operator system infos L S)
    (hcheck : ∀ {a k}, S.ethereumAccounts.lookup a = some k → k ∉ L.locked) {k : Pubkey}
    (hk : k ∈ S.solanaAccounts) : k ∉ L.locked := by
  intro hlocked
  obtain ⟨d, rest, hd, hblocked⟩ := hlocked
  exact hcheck (h.handle hk hd) ⟨d, rest, hd, hblocked⟩

/-- The accounts that an instruction has opened, with what it has written to them since. -/
def OpenedFor (S : ProgramAccountStorage) (accounts : StepAccounts) (L : Ledger) : Prop :=
  ∃ clock S₀ L₁, new clock accounts.operator accounts.systemProgram accounts.remainingAccounts L =
    .ok S₀ S₀.ledger ∧ S₀.ledger.Bypasses L₁ ∧ S = { S₀ with ledger := L₁ }

theorem openedFor_new {clock : Clock} {L₁ : Ledger}
    (h : new clock accounts.operator accounts.systemProgram accounts.remainingAccounts L =
      .ok S L₁) : S.OpenedFor accounts L := by
  obtain rfl := new_ledger h
  exact ⟨clock, S, S.ledger, h, refl_of Ledger.Bypasses S.ledger, rfl⟩

/-- **More is written** to them. -/
theorem OpenedFor.bypasses (h : S.OpenedFor accounts L) (hL : S.ledger.Bypasses L') :
    ({ S with ledger := L' } : ProgramAccountStorage).OpenedFor accounts L := by
  obtain ⟨clock, S₀, L₁, hnew, hbefore, rfl⟩ := h
  exact ⟨clock, S₀, L', hnew, hbefore.trans hL, rfl⟩

/-- **No journal** is handed to them. -/
theorem OpenedFor.recorded (h : S.OpenedFor accounts L) : L.Recorded S.ledger := by
  obtain ⟨clock, S₀, L₁, hnew, hbefore, rfl⟩ := h
  exact Ledger.recorded_of_history fun _ hL => (hL.opened hnew).own hbefore

/-- **A journal** is handed to them. -/
theorem OpenedFor.journal (h : S.OpenedFor accounts L) {actions : List Action}
    (hactions : AsksOthers actions) {readiness : AccountsReadiness}
    (happly : applyStateChange accounts.operator.pubkey actions S = .ok readiness S')
    (hafter : S'.ledger.Bypasses L') : L.Recorded L' := by
  obtain ⟨clock, S₀, L₁, hnew, hbefore, rfl⟩ := h
  have hinstructs : Instructs L actions readiness L' :=
    ⟨hactions, clock, accounts.operator, accounts.systemProgram, accounts.remainingAccounts,
      S₀.ledger, L₁, S₀, S', hnew, hbefore, happly, hafter⟩
  intro journals hL
  cases readiness with
  | ready => exact ⟨[actions], hL.applied hinstructs⟩
  | needMoreReallocations => exact ⟨[], (List.append_nil journals).symm ▸ hL.postponed hinstructs⟩

omit [Platform] [Runtime] in
/-- Running on the accounts that were opened. -/
theorem onAccounts_ok {α : Type} {x : Apply α} {a : α} (h : onAccounts S x L = .ok a L') :
    ∃ S', x { S with ledger := L } = .ok a S' ∧ S'.ledger = L' := by
  obtain ⟨S', hx, rfl⟩ := zoom_eq_ok.1 h
  exact ⟨S', hx, rfl⟩

end ProgramAccountStorage

omit [Platform] [Runtime] in
theorem intoActions_ok {backend : ExecutorState} {actions : List Action} {v : Unit}
    (h : backend.intoActions () = .ok actions v) : actions = backend.actions := by
  rw [ExecutorState.intoActions] at h
  split_ifs at h
  · exact (pure_eq_ok.1 h).1.symm
  · exact (abort_eq_ok.1 h).elim

/-! ## Executing at once -/

section

variable [Runtime.Lawful] {trx : Transaction} {caller : Address} {gasometer : Gasometer} {fuel : ℕ}

/-- **A transaction that is executed** works on the accounts that were supplied, and hands its
journal to them. -/
theorem executeTransaction_works (hapart : KeysApart) (hbuilders : BuildersApart) (hS : S.Opened)
    (hpay : S.CanPay accounts) (hfor : S.OpenedFor accounts L)
    (h : executeTransaction fuel accounts gasometer trx caller S = .ok u S') :
    S.Worked S' ∧ L.Recorded S'.ledger := by
  unfold executeTransaction at h
  obtain ⟨_, S₁, htreasury, h⟩ := bind_eq_ok.1 h
  have hworked : S.Worked S₁ :=
    returns_works_onLedger (returns_systemTransfer _ _ _) _ _ _ htreasury hS
  obtain ⟨L₁, hL₁, rfl⟩ := zoom_eq_ok.1 htreasury
  have hfor₁ := hfor.bypasses (returns_systemTransfer _ _ _ _ _ _ hL₁).bypasses
  obtain ⟨_, _, hget, h⟩ := bind_eq_ok.1 h
  obtain ⟨rfl, rfl⟩ := get_eq_ok.1 hget
  obtain ⟨⟨machine, backend⟩, _, hmake, h⟩ := bind_eq_ok.1 h
  obtain ⟨hnew, rfl⟩ := lift_eq_ok.1 hmake
  obtain ⟨⟨⟨result, steps⟩, backend', machine'⟩, _, hexecute, h⟩ := bind_eq_ok.1 h
  obtain ⟨hrun, rfl⟩ := lift_eq_ok.1 hexecute
  obtain ⟨actions, _, hinto, h⟩ := bind_eq_ok.1 h
  obtain ⟨hactions, rfl⟩ := lift_eq_ok.1 hinto
  have hforeign : AsksOthers backend'.actions :=
    asksOthers_executeMachine hbuilders hrun (asksOthers_new (runExecutor_eq_ok.1 hnew))
  have heq : actions = backend'.actions := intoActions_ok hactions
  obtain ⟨readiness, S₂, happly, h⟩ := bind_eq_ok.1 h
  have happlied := applyStateChange_works hapart (heq ▸ hforeign) happly hworked.opened
  obtain ⟨_, _, hready, h⟩ := bind_eq_ok.1 h
  obtain ⟨-, rfl⟩ := assertThat_eq_ok.1 hready
  obtain ⟨_, _, hget, h⟩ := bind_eq_ok.1 h
  obtain ⟨rfl, rfl⟩ := get_eq_ok.1 hget
  obtain ⟨_, _, hfail, h⟩ := bind_eq_ok.1 h
  obtain ⟨-, rfl⟩ := failIf_eq_ok.1 hfail
  obtain ⟨_, S₃, hpayment, h⟩ := bind_eq_ok.1 h
  obtain ⟨-, rfl⟩ := assertThat_eq_ok.1 h
  have hworked₂ := hworked.trans happlied
  obtain ⟨hpaid, hbypasses⟩ :=
    transferGasPayment_touches (hpay.worked hworked₂) hpayment hworked₂.opened
  exact ⟨hworked₂.trans hpaid, hfor₁.journal (heq ▸ hforeign) happly hbypasses⟩

/-- **What is executed at once** works on accounts that nobody has locked. -/
theorem aside_execute (hapart : KeysApart) (hbuilders : BuildersApart) (hL : L.Placed)
    (hat : accounts.At L) {clock : Clock} {L₁ : Ledger}
    (hnew : ProgramAccountStorage.new clock accounts.operator accounts.systemProgram
      accounts.remainingAccounts L = .ok S L₁)
    (h : onAccounts S (do
      validateTransaction trx
      executeTransaction fuel accounts gasometer trx caller) L₁ = .ok u L') : L.Aside L' := by
  obtain ⟨rfl, hloads⟩ := new_loads hL hnew
  obtain ⟨S', hrun, rfl⟩ := onAccounts_ok h
  obtain ⟨_, S₁, hvalidate, hexecute⟩ := bind_eq_ok.1 hrun
  obtain ⟨_, _, hfail, hcheck⟩ := bind_eq_ok.1 hvalidate
  obtain ⟨-, rfl⟩ := failIf_eq_ok.1 hfail
  obtain ⟨rfl, hfree⟩ := hloads.opened.checkForBlockedAccounts_ok hcheck
  have hlocked : S.ledger.locked = L.locked := Ledger.locked_congr hloads.clears.account
  obtain ⟨hworked, hrecorded⟩ := executeTransaction_works hapart hbuilders hloads.opened
    (hloads.canPay hat) (openedFor_new hnew) hexecute
  have hwithin := hloads.clears.within.trans hworked.within
  exact ⟨⟨_, _, hwithin, fun k hk => hloads.free (hlocked ▸ hfree) hk⟩,
    hworked.locked.trans hlocked, hwithin.held_state, hrecorded⟩

end

/-! ## The end of an instruction -/

omit [Platform] in
/-- **A state is over**: the deposit goes back, and the account is finalized. -/
theorem finalize_ok {d : State} {info : AccountMeta} {deposit : Pubkey}
    (h : d.finalize info deposit L = .ok u L') :
    ∃ L₁ f rest, L.Foreign L₁ ∧ L' = L₁.setContent info.pubkey (.finalized f rest) := by
  obtain ⟨_, L₁, hwithdraw, h⟩ := bind_eq_ok.1 h
  simp only [State.withdrawDeposit, accountAt, bind_eq_ok, gets_eq_ok, failIf_eq_ok, modify_eq_ok]
    at hwithdraw
  obtain ⟨_, _, ⟨rfl, rfl⟩, _, _, ⟨-, rfl⟩, _, _, ⟨rfl, rfl⟩, _, _, ⟨-, rfl⟩, _, _, rfl, rfl⟩ :=
    hwithdraw
  simp only [replaceAccount, accountAt, bind_eq_ok, gets_eq_ok, failIf_eq_ok, modify_eq_ok] at h
  obtain ⟨_, _, ⟨-, rfl⟩, _, _, ⟨rfl, rfl⟩, _, _, ⟨-, rfl⟩, rfl⟩ := h
  exact ⟨_, _, _, Trans.trans Ledger.foreign_setLamports Ledger.foreign_setLamports, rfl⟩

/-- What the end of an instruction leaves: the state is written again, or it is over, where there
was a journal to apply. -/
inductive Settled (info : AccountMeta) (state : Handle State) (hasResults : Bool)
    (S : ProgramAccountStorage) : Ledger → Prop
  | goesOn (gasUsed : U256) :
    Settled info state hasResults S
      (S.ledger.setContent info.pubkey (.state { state.data with gasUsed } state.rest))
  | ended {L : Ledger} (f : FinalizedState) (rest : Bytes) (hresults : hasResults = true)
      (hL : (S.ledger.locking false S.handleKeys).Foreign L) :
    Settled info state hasResults S (L.setContent info.pubkey (.finalized f rest))

section

variable [Runtime.Lawful] {info : AccountMeta} {state : Handle State} {gasometer : Gasometer}
  {results : Option (ExitStatus × List Action)} {stepsExecuted : ℕ}

/-- **The end of an instruction** works on the supplied accounts before it settles the state; the
journal, if there is one, is handed to them. -/
theorem finalizeStep_ok (hapart : KeysApart) (hS : S.Opened) (hpay : S.CanPay accounts)
    (hfor : S.OpenedFor accounts L) (hresults : ∀ r, results = some r → AsksOthers r.2)
    (h : finalizeStep stepsExecuted info accounts state results gasometer S = .ok u S') :
    ∃ S₁, S.Worked S₁ ∧ L.Recorded S₁.ledger ∧ Settled info state results.isSome S₁ S'.ledger := by
  have happly :
      Returns ProgramAccountStorage.Works (applyResults accounts.operator.pubkey results) := by
    rcases results with _ | ⟨status, actions⟩
    · exact (moves_pure _).returns
    · refine returns_bind (fun _ _ _ hx => ?_) fun _ => (moves_pure _).returns
      exact applyStateChange_works hapart (hresults _ rfl) hx
  have handed {S₁ S₂ : ProgramAccountStorage} {exitReason : Option ExitStatus} {L' : Ledger}
      (hfor₁ : S₁.OpenedFor accounts L)
      (h : applyResults accounts.operator.pubkey results S₁ = .ok exitReason S₂)
      (hafter : S₂.ledger.Bypasses L') : L.Recorded L' := by
    rcases results with _ | ⟨status, actions⟩
    · obtain ⟨-, rfl⟩ := pure_eq_ok.1 h
      exact (hfor₁.bypasses hafter).recorded
    · obtain ⟨readiness, _, happly, hpure⟩ := bind_eq_ok.1 h
      obtain ⟨-, rfl⟩ := pure_eq_ok.1 hpure
      exact hfor₁.journal (hresults _ rfl) happly hafter
  have hend {S₁ : ProgramAccountStorage} (hS₁ : S.Worked S₁) (hfor₁ : S₁.OpenedFor accounts L)
      (h : (do
        let exitReason ← applyResults accounts.operator.pubkey results
        let lamports := ((← get).ledger accounts.operator.pubkey).lamports
        let gasometer := gasometer.recordOperatorExpenses lamports
        failIf (state.data.gasLimit < gasometer.usedGasTotal)
          (.outOfGas state.data.gasLimit gasometer.usedGasTotal)
        let state ← payGasCost gasometer.usedGas accounts state
        settleState info accounts.operator.pubkey state exitReason) S₁ = .ok u S') :
      ∃ S₁, S.Worked S₁ ∧ L.Recorded S₁.ledger ∧
        Settled info state results.isSome S₁ S'.ledger := by
    obtain ⟨exitReason, S₂, hresult, h⟩ := bind_eq_ok.1 h
    have hS₂ := hS₁.trans (happly _ _ _ hresult hS₁.opened)
    obtain ⟨_, _, hget, h⟩ := bind_eq_ok.1 h
    obtain ⟨rfl, rfl⟩ := get_eq_ok.1 hget
    obtain ⟨_, _, hfail, h⟩ := bind_eq_ok.1 h
    obtain ⟨-, rfl⟩ := failIf_eq_ok.1 hfail
    obtain ⟨_, S₃, hgas, h⟩ := bind_eq_ok.1 h
    obtain ⟨_, _, htransfer, hpure⟩ := bind_eq_ok.1 hgas
    obtain ⟨rfl, rfl⟩ := pure_eq_ok.1 hpure
    obtain ⟨hpaid, hbypasses⟩ :=
      transferGasPayment_touches (hpay.worked hS₂) htransfer hS₂.opened
    have hS₃ := hS₂.trans hpaid
    refine ⟨_, hS₃, handed hfor₁ hresult hbypasses, ?_⟩
    have hresults : exitReason.isSome = true → results.isSome = true := by
      rcases results with _ | r
      · obtain ⟨rfl, -⟩ := pure_eq_ok.1 hresult
        exact id
      · exact fun _ => rfl
    rcases exitReason with _ | status
    · obtain ⟨_, _, hassert, h⟩ := bind_eq_ok.1 h
      obtain ⟨-, rfl⟩ := assertThat_eq_ok.1 hassert
      obtain ⟨L₁, hmodify, rfl⟩ := zoom_eq_ok.1 h
      obtain rfl := modify_eq_ok.1 hmodify
      exact .goesOn _
    · obtain ⟨_, _, hassert, h⟩ := bind_eq_ok.1 h
      obtain ⟨-, rfl⟩ := assertThat_eq_ok.1 hassert
      obtain ⟨_, S₄, hblock, h⟩ := bind_eq_ok.1 h
      obtain rfl := hS₃.opened.blockAccounts_ok hblock
      obtain ⟨L₁, hfinalize, rfl⟩ := zoom_eq_ok.1 h
      obtain ⟨L₂, f, rest, hforeign, rfl⟩ := finalize_ok hfinalize
      exact .ended f rest (hresults rfl) hforeign
  unfold finalizeStep at h
  dsimp only at h
  split_ifs at h
  · obtain ⟨_, S₁, hpaid, h⟩ := bind_eq_ok.1 h
    have hS₁ := returns_works_onLedger (returns_systemTransfer _ _ _) _ _ _ hpaid hS
    obtain ⟨L₁, hL₁, rfl⟩ := zoom_eq_ok.1 hpaid
    exact hend hS₁ (hfor.bypasses (returns_systemTransfer _ _ _ _ _ _ hL₁).bypasses) h
  · exact hend (refl_of ProgramAccountStorage.Works S hS) hfor h

end

section

variable [Bincode] {M M₁ : Ledger} {K : Pubkey → Prop} {s : Pubkey} {d : State} {rest : Bytes}
  {ks : Set Pubkey}

omit [Platform] [Bincode] in
theorem held_storage_of_state {e : State × Bytes} (h : M.held State s = some e) :
    M.held EthereumStorage s = none := by
  rw [Ledger.held, (Ledger.held_state.1 h).2]
  exact ite_self _

omit [Bincode] in
/-- **The account of a state** is written. -/
theorem within_setState (hheld : (M.held State s).isSome) {c : Content}
    (hc : ∀ {d rest}, c ≠ .ethereum d rest) (hc' : ∀ {p rest}, c ≠ .storage p rest) :
    M.Within K (· = s) (M.setContent s c) := by
  obtain ⟨⟨d, rest⟩, hd⟩ := Option.isSome_iff_exists.1 hheld
  refine Ledger.within_setPaper (Ledger.held_state.1 hd).1 (Ledger.held_ethereum_of_state hd)
    (held_storage_of_state hd) rfl hc hc' fun hnone => ?_
  rw [Ledger.held_state_iff_paper.1 hd] at hnone
  cases hnone

omit [Bincode] in
/-- **A state is written.** -/
theorem within_writeState (hheld : (M.held State s).isSome) :
    M.Within K (· = s) (M.setContent s (.state d rest)) :=
  within_setState hheld (fun {_ _} hc => by cases hc) fun {_ _} hc => by cases hc

omit [Platform] [Bincode] in
theorem held_writeState (hheld : (M.held State s).isSome) :
    (M.setContent s (.state d rest)).held State s = some (d, rest) := by
  obtain ⟨e, he⟩ := Option.isSome_iff_exists.1 hheld
  rw [Ledger.held_setContent, if_pos rfl, if_pos (Ledger.held_state.1 he).1]
  rfl

omit [Bincode] in
/-- **What is written in the place of a state** holds no storage. -/
theorem bypasses_setState (hheld : (M.held State s).isSome) {c : Content}
    (hc : (split c : Option (EthereumAccount × Bytes)) = none)
    (hc' : (split c : Option (EthereumStorage × Bytes)) = none) :
    M.Bypasses (M.setContent s c) := by
  obtain ⟨e, he⟩ := Option.isSome_iff_exists.1 hheld
  exact Ledger.bypasses_setOther (Ledger.held_ethereum_of_state he) (held_storage_of_state he) hc hc'

omit [Platform] [Bincode] in
theorem locked_writeState (hheld : (M.held State s).isSome) :
    (M.setContent s (.state d rest)).locked = M.locked := by
  obtain ⟨e, he⟩ := Option.isSome_iff_exists.1 hheld
  exact Ledger.locked_setOther (Ledger.held_ethereum_of_state he) fun {_ _} hc => by cases hc

/-- **A turn that goes on**: the state is written, with what it has locked on its list. -/
theorem Ledger.Turn.goesOn (hwithin : L.Within K (· = s) M)
    (hK : ∀ k, K k → k ∈ L.locked → k ∈ L.claims (some s)) (hheld : (M.held State s).isSome)
    (hsaves : d.SavesForeign rest) (free : ∀ k ∈ ks, k ∉ L.locked)
    (hlocked : M.locked = L.locked ∪ ks)
    (hclaims : {k | ∃ m ∈ d.listed rest, m.key = k ∧ m.exists_ = true} =
      L.claims (some s) ∪ ks) (hrecorded : L.Recorded M) :
    L.Turn (some s) (M.setContent s (.state d rest)) := by
  have hset : L.Within K (· = s) (M.setContent s (.state d rest)) :=
    hwithin.trans (within_writeState hheld)
  have hd : (M.setContent s (.state d rest)).held State s = some (d, rest) := held_writeState hheld
  refine ⟨⟨K, _, hset, hK⟩, fun t ht => ?_, .inl ⟨ks, free, ?_, ?_⟩, fun {t d' rest'} ht hd' => ?_,
    Trans.trans hrecorded (bypasses_setState hheld rfl rfl).recorded⟩
  · exact held_state_congr (hset.paper fun h => ht (congrArg some h))
  · rw [locked_writeState hheld, hlocked]
  · rw [claims_of_held hd, hclaims]
  · obtain rfl := Option.some.inj ht
    obtain ⟨rfl, rfl⟩ := Prod.mk.inj (Option.some.inj (hd.symm.trans hd'))
    exact hsaves

/-- **A turn that ends a transaction**: what it had locked is free. -/
theorem Ledger.Turn.ended (hwithin : L.Within K (· = s) M)
    (hK : ∀ k, K k → k ∈ L.locked → k ∈ L.claims (some s)) (hheld : (M.held State s).isSome)
    (hlocked : M.locked = L.locked \ L.claims (some s)) (hrecorded : L.Recorded M)
    (f : FinalizedState) (rest : Bytes) : L.Turn (some s) (M.setContent s (.finalized f rest)) := by
  obtain ⟨⟨e, r⟩, he⟩ := Option.isSome_iff_exists.1 hheld
  have hset : M.Within K (· = s) (M.setContent s (.finalized f rest)) :=
    within_setState hheld (fun {_ _} hc => by cases hc) fun {_ _} hc => by cases hc
  have hnone : (M.setContent s (.finalized f rest)).held State s = none := by
    rw [held_setContent, if_pos rfl, if_pos (held_state.1 he).1]
    rfl
  refine ⟨⟨K, _, hwithin.trans hset, hK⟩, fun t ht => ?_, .inr ⟨?_, claims_of_none hnone,
    fun t ht => Option.some.inj ht ▸ hnone⟩, fun {t d' rest'} ht hd' => ?_,
    Trans.trans hrecorded (bypasses_setState hheld rfl rfl).recorded⟩
  · exact held_state_congr ((hwithin.trans hset).paper fun h => ht (congrArg some h))
  · rw [locked_setOther (held_ethereum_of_state he) (fun {_ _} hc => by cases hc), hlocked]
  · obtain rfl := Option.some.inj ht
    rw [hnone] at hd'
    cases hd'

end

section

variable [Runtime.Lawful] [Bincode] {info : AccountMeta} {state : Handle State}
  {gasometer : Gasometer} {results : Option (ExitStatus × List Action)} {stepsExecuted : ℕ}
  {ks : Set Pubkey}

/-- **An instruction ends**: the accounts it has locked are on the list of its state, or it unlocks
all of them. -/
theorem turn_finalizeStep (hapart : KeysApart) (hS : S.Opened) (hpay : S.CanPay accounts)
    (hfor : S.OpenedFor accounts L)
    (hwithin : L.Within (· ∈ S.solanaAccounts) (· = info.pubkey) S.ledger)
    (hK : ∀ k ∈ S.solanaAccounts, k ∈ L.locked → k ∈ L.claims (some info.pubkey))
    (hheld : (S.ledger.held State info.pubkey).isSome)
    (hsaves : state.data.SavesForeign state.rest) (free : ∀ k ∈ ks, k ∉ L.locked)
    (hlocked : S.ledger.locked = L.locked ∪ ks)
    (hclaims : {k | ∃ m ∈ state.data.listed state.rest, m.key = k ∧ m.exists_ = true} =
      L.claims (some info.pubkey) ∪ ks)
    (hresults : ∀ r, results = some r → AsksOthers r.2)
    (hover : results.isSome = true → ∀ {S₁ : ProgramAccountStorage}, S.Worked S₁ →
      S.ledger.locked \ {k | k ∈ S₁.handleKeys} = L.locked \ L.claims (some info.pubkey))
    (h : finalizeStep stepsExecuted info accounts state results gasometer S = .ok u S') :
    L.Turn (some info.pubkey) S'.ledger := by
  obtain ⟨S₁, hworked, hrecorded, hsettled⟩ := finalizeStep_ok hapart hS hpay hfor hresults h
  have hwithin₁ : L.Within (· ∈ S.solanaAccounts) (· = info.pubkey) S₁.ledger :=
    hwithin.trans (hworked.within.mono (fun _ hk => hk) fun _ hk => hk.elim)
  have hheld₁ : (S₁.ledger.held State info.pubkey).isSome :=
    (hworked.within.held_state _).symm ▸ hheld
  generalize hL' : S'.ledger = L' at hsettled
  cases hsettled with
  | goesOn gasUsed =>
    exact .goesOn hwithin₁ hK hheld₁ hsaves free (hworked.locked.trans hlocked) hclaims hrecorded
  | ended f rest hsome hforeign =>
    have hunlock : S₁.ledger.Within (· ∈ S.solanaAccounts) (· = info.pubkey)
        (S₁.ledger.locking false S₁.handleKeys) := by
      refine Ledger.within_locking fun k hk _ => ?_
      obtain ⟨a, ha⟩ := mem_handleKeys.1 hk
      exact hworked.supplied ▸ (hworked.opened.account ha).1
    have hbypasses : S₁.ledger.Bypasses _ := Ledger.bypasses_locking.trans hforeign.bypasses
    refine .ended (hwithin₁.trans (hunlock.trans hforeign.within)) hK ?_ ?_
      (Trans.trans hrecorded hbypasses.recorded) f rest
    · rw [hforeign.held_eq (fun _ => rfl), Ledger.held_locking fun _ _ => rfl]
      exact hheld₁
    · rw [hforeign.locked, Ledger.locked_locking_false, hworked.locked]
      exact hover hsome hworked

end

/-! ## A new state -/

section

variable [Runtime.Lawful] {info : AccountMeta} {state : Handle State}

/-- **A state is made** of a holder or of a state that is over. -/
structure Makes (info : AccountMeta) (infos : List AccountMeta) (L : Ledger) (state : Handle State)
    (L' : Ledger) : Prop where
  key : state.key = info.pubkey
  before : L.held State info.pubkey = none
  held : L'.held State info.pubkey = some (state.data, state.rest)
  listed : state.data.listed state.rest =
    infos.map fun i => ⟨i.pubkey, L.accountExists i.pubkey, i.isWritable⟩
  within : L.Within (fun _ => False) (· = info.pubkey) L'
  locked : L'.locked = L.locked
  bypasses : L.Bypasses L'

omit [Platform] in
theorem State.ownerOf_ok {trx : Transaction} {owner : Pubkey}
    (h : State.ownerOf info trx L = .ok owner L') :
    L = L' ∧ (L info.pubkey).owner = programId ∧ (L info.pubkey).content.Idle ∧
      (L.paper info.pubkey).isSome = true := by
  obtain ⟨tag, _, htag, h⟩ := bind_eq_ok.1 h
  obtain ⟨-, -, rfl⟩ := accountTag_eq_ok.1 htag
  split_ifs at h with hholder hfinalized
  · obtain ⟨d, _, hd, hpure⟩ := bind_eq_ok.1 h
    obtain ⟨rfl, rest, hheld⟩ := fromAccount_ok hd
    obtain ⟨-, rfl⟩ := pure_eq_ok.1 hpure
    obtain ⟨howner, hcontent⟩ := held_holder.1 hheld
    rw [Ledger.paper, if_pos howner, hcontent]
    exact ⟨rfl, howner, ⟨rfl, rfl, rfl⟩, rfl⟩
  · obtain ⟨d, _, hd, h⟩ := bind_eq_ok.1 h
    obtain ⟨rfl, rest, hheld⟩ := fromAccount_ok hd
    obtain ⟨_, _, hfail, hpure⟩ := bind_eq_ok.1 h
    obtain ⟨-, rfl⟩ := failIf_eq_ok.1 hfail
    obtain ⟨-, rfl⟩ := pure_eq_ok.1 hpure
    obtain ⟨howner, hcontent⟩ := held_finalized.1 hheld
    rw [Ledger.paper, if_pos howner, hcontent]
    exact ⟨rfl, howner, ⟨rfl, rfl, rfl⟩, rfl⟩
  · exact (fail_eq_ok.1 h).elim

omit [Platform] [Runtime.Lawful] in
/-- **The list is written** in front of everything else. -/
theorem State.writeBlockedAccounts_ok {state' : Handle State} {infos : List AccountMeta}
    (h : State.writeBlockedAccounts state infos L = .ok state' L') :
    state'.key = state.key ∧ state'.data = state.data ∧
      state'.data.listed state'.rest =
        infos.map (fun i => ⟨i.pubkey, L.accountExists i.pubkey, i.isWritable⟩) ∧
      L' = L.setContent state.key (.state state.data state'.rest) := by
  simp only [State.writeBlockedAccounts, bind_eq_ok, assertThat_eq_ok, failIf_eq_ok, get_eq_ok,
    modify_eq_ok, pure_eq_ok] at h
  obtain ⟨_, _, ⟨hlen, rfl⟩, _, _, ⟨-, rfl⟩, _, _, ⟨-, rfl⟩, _, _, ⟨rfl, rfl⟩, _, _, rfl, rfl,
    rfl⟩ := h
  have hlen : state.data.accountsLen = infos.length := of_decide_eq_true hlen
  refine ⟨rfl, rfl, ?_, rfl⟩
  generalize hmetas : infos.map (fun i : AccountMeta =>
    (⟨i.pubkey, L.accountExists i.pubkey, i.isWritable⟩ : BlockedAccountMeta)) = metas
  have hrow : state.data.evmDataOffset = (BlockedAccountMeta.format.row metas).length := by
    rw [BlockedAccountMeta.format.length_row, ← hmetas, List.length_map, ← hlen]
    rfl
  show BlockedAccountMeta.format.read ((Chunks.overwrite state.rest 0 _).take
    state.data.evmDataOffset) = metas
  rw [hrow, ← List.drop_zero (l := Chunks.overwrite _ 0 _),
    Chunks.take_drop_overwrite_self (Nat.zero_le _), BlockedAccountMeta.format.read_row]

/-- **`State::new`**. -/
theorem State.new_ok {clock : Clock} {caller : Address} {trx : Transaction}
    (h : State.new clock info accounts caller trx L = .ok state L') :
    Makes info accounts.remainingAccounts L state L' := by
  obtain ⟨owner, _, hownerOf, h⟩ := bind_eq_ok.1 h
  obtain ⟨rfl, howner, hidle, hpaper⟩ := ownerOf_ok hownerOf
  obtain ⟨_, _, hfail, h⟩ := bind_eq_ok.1 h
  obtain ⟨-, rfl⟩ := failIf_eq_ok.1 hfail
  obtain ⟨_, L₁, hblank, h⟩ := bind_eq_ok.1 h
  obtain rfl := modify_eq_ok.1 hblank
  obtain ⟨_, L₂, hinit, h⟩ := bind_eq_ok.1 h
  obtain ⟨-, -, rfl⟩ := initAccount_ok hinit
  rw [Ledger.setContent_setContent] at h
  obtain ⟨_, L₃, htransfer, h⟩ := bind_eq_ok.1 h
  have hforeign := returns_systemTransfer _ _ _ _ _ _ htransfer
  obtain ⟨⟨d', rest⟩, _, hopen, h⟩ := bind_eq_ok.1 h
  obtain ⟨rfl, hheld₃⟩ := openAccount_ok hopen
  obtain ⟨hkey, hdata, hlisted, rfl⟩ := writeBlockedAccounts_ok h
  have haccount : L.held EthereumAccount info.pubkey = none := held_eq_none_of_split hidle.account
  have hwithin {d : State} {r : Bytes} :
      L.Within (fun _ => False) (· = info.pubkey) (L.setContent info.pubkey (.state d r)) := by
    refine Ledger.within_setPaper howner haccount (held_eq_none_of_split hidle.page) rfl
      (fun {_ _} hc => by cases hc) (fun {_ _} hc => by cases hc) fun hnone => ?_
    rw [hnone] at hpaper
    cases hpaper
  have hlocked {d : State} {r : Bytes} :
      (L.setContent info.pubkey (.state d r)).locked = L.locked :=
    Ledger.locked_setOther haccount fun {_ _} hc => by cases hc
  have hexists (k : Pubkey) : L₃.accountExists k = L.accountExists k := by
    rw [hforeign.accountExists_eq]
    refine Ledger.accountExists_setOther (Ledger.accountExists_of_paper hpaper) ?_ k
    exact of_decide_eq_false rfl
  have hsome : (L₃.held State info.pubkey).isSome := hheld₃ ▸ rfl
  have hset : L₃.Within (fun _ => False) (· = info.pubkey)
      (L₃.setContent info.pubkey (.state state.data state.rest)) := within_writeState hsome
  rw [hdata] at hset
  refine ⟨hkey, held_eq_none_of_split hidle.state, ?_, ?_,
    hwithin.trans (hforeign.within.trans hset), ?_, ?_⟩
  · rw [held_writeState hsome, hdata]
  · rw [hlisted]
    exact List.map_congr_left fun i _ => by rw [hexists]
  · rw [locked_writeState hsome]
    exact hforeign.locked.trans hlocked
  · refine Ledger.Bypasses.trans ?_ (bypasses_setState hsome rfl rfl)
    exact (Ledger.bypasses_setOther haccount (held_eq_none_of_split hidle.page) rfl rfl).trans
      hforeign.bypasses

end

/-! ## Beginning -/

section

variable [Bincode] {info : AccountMeta} {state : Handle State}

omit [Platform] [Bincode] in
theorem setStateRest_of_held {key : Pubkey} {d : State} {rest rest' : Bytes}
    (h : L.held State key = some (d, rest)) :
    L.setStateRest key rest' = L.setContent key (.state d rest') := by
  rw [Ledger.setStateRest, (Ledger.held_state.1 h).2]
  rfl

omit [Platform] in
/-- **The execution is saved** in the account of the state, behind the same list. -/
theorem onLedger_serialize_ok {state' : Handle State} {backend : ExecutorState} {machine : Machine}
    (hheld : (S.ledger.held State state.key).isSome)
    (h : onLedger (serializeEvmState state backend machine) S = .ok state' S') :
    (∃ d, S' = { S with ledger := S.ledger.setContent state.key (.state d state'.rest) }) ∧
      state'.data.listed state'.rest = state.data.listed state.rest ∧
      state'.data.savedEvm state'.rest =
        some (Bincode.serializeState backend, Bincode.serializeMachine machine) := by
  obtain ⟨L, hL, rfl⟩ := zoom_eq_ok.1 h
  obtain ⟨-, rfl, -, hlisted, hsaved⟩ := serializeEvmState_ok hL
  obtain ⟨⟨d, rest⟩, hd⟩ := Option.isSome_iff_exists.1 hheld
  exact ⟨⟨d, by rw [setStateRest_of_held hd]⟩, hlisted, hsaved⟩

omit [Platform] [Bincode] in
/-- What the list of a state claims, where it lists what is there. -/
theorem claims_of_listed {infos : List AccountMeta} {bs : BlockedAccounts}
    (h : bs = infos.map fun i => ⟨i.pubkey, L.accountExists i.pubkey, i.isWritable⟩) :
    {k | ∃ m ∈ bs, m.key = k ∧ m.exists_ = true} =
      {k | k ∈ infos.map (·.pubkey) ∧ L.accountExists k = true} := by
  ext k
  rw [Set.mem_ofPred_eq, Set.mem_ofPred_eq, h]
  constructor
  · rintro ⟨m, hm, rfl, hexists⟩
    obtain ⟨i, hi, rfl⟩ := List.mem_map.1 hm
    exact ⟨List.mem_map.2 ⟨i, hi, rfl⟩, hexists⟩
  · rintro ⟨hk, hexists⟩
    obtain ⟨i, hi, rfl⟩ := List.mem_map.1 hk
    exact ⟨_, List.mem_map.2 ⟨i, hi, rfl⟩, rfl, hexists⟩

omit [Platform] [Bincode] in
theorem accountExists_of_held {k : Pubkey} {e : EthereumAccount × Bytes}
    (h : L.held EthereumAccount k = some e) : L.accountExists k = true := by
  obtain ⟨howner, hcontent⟩ := Ledger.held_ethereum.1 h
  rw [Ledger.accountExists, hcontent, howner, decide_eq_true rfl]
  rfl

namespace ProgramAccountStorage

variable {infos : List AccountMeta}

omit [Bincode] in
/-- **An Ethereum account that is supplied** is not the operator: it is one of the others. -/
theorem Loads.mem_infos (hapart : KeysApart) (hne : Platform.systemProgramId ≠ programId)
    (h : Loads accounts.operator accounts.systemProgram infos L S) (hat : accounts.At L)
    {k : Pubkey} (hk : k ∈ S.solanaAccounts) {d : EthereumAccount} {rest : Bytes}
    (hd : L.held EthereumAccount k = some (d, rest)) : k ∈ infos.map (·.pubkey) := by
  have hkey : k = d.address.key := h.opened.placed.account ((h.clears.account k).trans hd)
  rw [h.supplied, List.map_append, List.mem_append] at hk
  refine hk.resolve_right fun hmem => ?_
  rcases List.mem_cons.1 hmem with rfl | hmem
  · exact hne (hat.operator.symm.trans (Ledger.held_ethereum.1 hd).1)
  · rw [List.mem_singleton.1 hmem] at hkey
    exact hapart.system (hkey.symm.trans hat.system)

omit [Bincode] in
theorem Loads.mem_supplied_of_infos {operator : AccountMeta} {system : Option AccountMeta}
    (h : Loads operator system infos L S) {k : Pubkey} (hk : k ∈ infos.map (·.pubkey)) :
    k ∈ S.solanaAccounts := by
  rw [h.supplied, List.map_append]
  exact List.mem_append_left _ hk

omit [Bincode] in
/-- **A new list claims** what has a handle. -/
theorem Loads.claims {bs : BlockedAccounts} (hapart : KeysApart)
    (hne : Platform.systemProgramId ≠ programId)
    (h : Loads accounts.operator accounts.systemProgram infos L S) (hat : accounts.At L)
    (hbs : bs = infos.map fun i => ⟨i.pubkey, S.ledger.accountExists i.pubkey, i.isWritable⟩) :
    {k | ∃ m ∈ bs, m.key = k ∧ m.exists_ = true} = {k | k ∈ S.handleKeys} := by
  rw [claims_of_listed hbs]
  ext k
  rw [Set.mem_ofPred_eq, Set.mem_ofPred_eq, mem_handleKeys, h.clears.accountExists]
  constructor
  · rintro ⟨hk, hexists⟩
    have hsupplied := h.mem_supplied_of_infos hk
    obtain ⟨⟨d, rest⟩, hd⟩ := Option.isSome_iff_exists.1 (h.formed hsupplied hexists)
    exact ⟨_, h.handle hsupplied hd⟩
  · rintro ⟨a, ha⟩
    obtain ⟨hsupplied, d, rest, hd, -⟩ := h.opened.account ha
    rw [h.clears.account] at hd
    exact ⟨h.mem_infos hapart hne hat hsupplied hd, accountExists_of_held hd⟩

end ProgramAccountStorage

variable [Runtime.Lawful] [Bincode.Lawful]

omit [Platform] [Runtime.Lawful] in
/-- **What was saved** asks other programs only, where the journal did. -/
theorem savesForeign_of_saved {d : State} {rest machine : Bytes} {b : ExecutorState}
    (hsaved : d.savedEvm rest = some (Bincode.serializeState b, machine))
    (hasks : AsksOthers b.actions) : d.SavesForeign rest := by
  intro bytes c hbytes hc
  obtain rfl := Option.some.inj (hsaved.symm.trans hbytes)
  rw [Bincode.Lawful.actions hc]
  exact hasks

/-- **A transaction begins**: it locks what is there of its list. -/
theorem turn_begin (hapart : KeysApart) (hL : L.Ordered)
    (hat : accounts.At L) {clock : Clock} {L₁ L₂ : Ledger}
    (hnew : ProgramAccountStorage.new clock accounts.operator accounts.systemProgram
      accounts.remainingAccounts L = .ok S L₁)
    {made : Handle State} (hmade : Makes info accounts.remainingAccounts L₁ made L₂)
    (hkey : state.key = made.key)
    (hlisted : state.data.listed state.rest = made.data.listed made.rest)
    {gasometer : Gasometer} {trx : Transaction} {caller : Address}
    (h : onAccounts S (doBegin info accounts state gasometer trx caller) L₂ = .ok u L') :
    L.Turn (some info.pubkey) L' := by
  obtain ⟨rfl, hloads⟩ := new_loads hL.placed hnew
  obtain ⟨S', hrun, rfl⟩ := onAccounts_ok h
  have hopened := hloads.opened.of_within hmade.within
  have hlocked₂ : L₂.locked = L.locked :=
    hmade.locked.trans (Ledger.locked_congr hloads.clears.account)
  obtain ⟨_, _, hcheck, hrun⟩ := bind_eq_ok.1 hrun
  obtain ⟨rfl, hfree⟩ := hopened.checkForBlockedAccounts_ok hcheck
  obtain ⟨_, S₃, hblock, hrun⟩ := bind_eq_ok.1 hrun
  obtain rfl := hopened.blockAccounts_ok hblock
  obtain ⟨_, _, hget, hrun⟩ := bind_eq_ok.1 hrun
  obtain ⟨rfl, rfl⟩ := get_eq_ok.1 hget
  obtain ⟨⟨machine, backend⟩, _, hmake, hrun⟩ := bind_eq_ok.1 hrun
  obtain ⟨hmachine, rfl⟩ := lift_eq_ok.1 hmake
  obtain ⟨state', S₄, hsave, hrun⟩ := bind_eq_ok.1 hrun
  have hheld₃ : ((L₂.locking true S.handleKeys).held State state.key).isSome := by
    rw [Ledger.held_locking fun _ _ => rfl, hkey, hmade.key, hmade.held]
    rfl
  obtain ⟨⟨d, rfl⟩, hlist, hsaved⟩ := onLedger_serialize_ok hheld₃ hsave
  rw [hkey, hmade.key] at hheld₃
  have hlock : L₂.Within (· ∈ S.solanaAccounts) (· = info.pubkey)
      (L₂.locking true S.handleKeys) := by
    refine Ledger.within_locking fun k hk _ => ?_
    obtain ⟨a, ha⟩ := mem_handleKeys.1 hk
    exact (hloads.opened.account ha).1
  have hset : S.ledger.Within (· ∈ S.solanaAccounts) (· = info.pubkey)
      ((L₂.locking true S.handleKeys).setContent info.pubkey (.state d state'.rest)) :=
    ((hmade.within.mono (fun _ hk => hk.elim) fun _ hk => hk).trans hlock).trans
      (within_writeState hheld₃)
  have hlistedS : state'.data.listed state'.rest = accounts.remainingAccounts.map fun i =>
      ⟨i.pubkey, S.ledger.accountExists i.pubkey, i.isWritable⟩ :=
    hlist.trans (hlisted.trans hmade.listed)
  have hnone : L.held State info.pubkey = none :=
    (hloads.clears.within.held_state _).symm.trans hmade.before
  have hfree' : ∀ k ∈ {k | k ∈ S.handleKeys}, k ∉ L.locked := by
    intro k hk
    obtain ⟨a, ha⟩ := mem_handleKeys.1 hk
    exact hlocked₂ ▸ hfree ha
  rw [hkey, hmade.key] at hrun
  have hbypasses := (hmade.bypasses.trans Ledger.bypasses_locking).trans
    (bypasses_setState (c := .state d state'.rest) hheld₃ rfl rfl)
  refine turn_finalizeStep hapart (hloads.opened.of_within hset)
    ((hloads.canPay hat).within hset) ((openedFor_new hnew).bypasses hbypasses)
    ((hloads.clears.within.mono (fun _ hk => hk) fun _ hk => hk.elim).trans hset)
    (fun k hk hlocked => (hloads.free (fun ha => hlocked₂ ▸ hfree ha) hk hlocked).elim)
    (held_writeState hheld₃ ▸ rfl)
    (savesForeign_of_saved hsaved (asksOthers_new (runExecutor_eq_ok.1 hmachine)))
    hfree' ?_ ?_ (fun _ h => by cases h) (fun h => by cases h) hrun
  · show Ledger.locked (Ledger.setContent _ _ _) = _
    rw [locked_writeState hheld₃, Ledger.locked_locking_true, hlocked₂]
    refine congrArg (L.locked ∪ ·) (Set.ext fun k => and_iff_left_of_imp fun hk => ?_)
    obtain ⟨a, ha⟩ := mem_handleKeys.1 hk
    obtain ⟨-, d, rest, hd, -⟩ := hopened.account ha
    exact hd ▸ rfl
  · rw [Ledger.claims_of_none hnone, Set.empty_union]
    exact hloads.claims hapart Runtime.Lawful.systemProgramId_ne hat hlistedS

end

/-! ## Going on -/

section

variable {info : AccountMeta} {state : Handle State} {blocked : BlockedAccounts}

omit [Platform] in
/-- **`State::restore`** reads the state, and checks the accounts against its list. -/
theorem State.restore_ok {clock : Clock} {operator : Pubkey} {infos : List AccountMeta}
    {isCancelling : Bool}
    (h : State.restore clock info operator infos isCancelling L = .ok (state, blocked) L') :
    L = L' ∧ state.key = info.pubkey ∧ ∃ d operator slot,
      L.held State info.pubkey = some (d, state.rest) ∧ state.data = { d with operator, slot } ∧
      blocked = d.listed state.rest ∧
      List.Forall₂ (BlockedAccountMeta.Fits L isCancelling) blocked infos := by
  obtain ⟨tag, _, htag, h⟩ := bind_eq_ok.1 h
  obtain ⟨-, -, rfl⟩ := accountTag_eq_ok.1 htag
  obtain ⟨_, _, hfail, h⟩ := bind_eq_ok.1 h
  obtain ⟨-, rfl⟩ := failIf_eq_ok.1 hfail
  obtain ⟨_, _, hfail, h⟩ := bind_eq_ok.1 h
  obtain ⟨-, rfl⟩ := failIf_eq_ok.1 hfail
  obtain ⟨⟨d, rest⟩, _, hopen, h⟩ := bind_eq_ok.1 h
  obtain ⟨rfl, hheld⟩ := openAccount_ok hopen
  obtain ⟨blocked', _, hcheck, h⟩ := bind_eq_ok.1 h
  obtain ⟨hread, hfits, rfl⟩ := checkBlockedAccounts_eq_ok.1 hcheck
  obtain ⟨-, hlisted⟩ := State.readBlockedAccounts_eq_ok.1 hread
  obtain ⟨_, _, hfail, h⟩ := bind_eq_ok.1 h
  obtain ⟨-, rfl⟩ := failIf_eq_ok.1 hfail
  obtain ⟨heq, rfl⟩ := pure_eq_ok.1 h
  obtain ⟨rfl, rfl⟩ := Prod.mk.inj heq
  refine ⟨rfl, rfl, d, if d.operator ≠ operator then operator else d.operator,
    if d.operator ≠ operator then clock.slot else d.slot, hheld, ?_, hlisted.symm, hfits⟩
  show (if d.operator ≠ operator then _ else _) = _
  split_ifs <;> rfl

end

section

variable [Runtime.Lawful] [Bincode] [Bincode.Lawful] {info : AccountMeta} {state : Handle State}
  {blocked : BlockedAccounts} {gasometer : Gasometer}

omit [Platform] [Runtime.Lawful] [Bincode] [Bincode.Lawful] in
/-- **The list is what was supplied.** -/
theorem keys_of_fits {infos : List AccountMeta} {isCancelling : Bool}
    (h : List.Forall₂ (BlockedAccountMeta.Fits L isCancelling) blocked infos) :
    blocked.map (·.key) = infos.map (·.pubkey) := by
  induction h with
  | nil => rfl
  | cons hfits _ ih => rw [List.map_cons, List.map_cons, hfits.key, ih]

namespace ProgramAccountStorage

variable {infos : List AccountMeta} {d : State} {rest : Bytes} {s : Pubkey}

omit [Runtime.Lawful] [Bincode] [Bincode.Lawful] in
/-- **What is locked of the supplied accounts** is claimed by the state that lists them. -/
theorem Loads.claimed (hapart : KeysApart) (hne : Platform.systemProgramId ≠ programId)
    (h : Loads accounts.operator accounts.systemProgram infos L S) (hat : accounts.At L)
    (hheld : L.held State s = some (d, rest))
    (hfits : List.Forall₂ (BlockedAccountMeta.Fits S.ledger false) (d.listed rest) infos)
    {k : Pubkey} (hk : k ∈ S.solanaAccounts) (hlocked : k ∈ L.locked) : k ∈ L.claims (some s) := by
  obtain ⟨e, r, he, -⟩ := hlocked
  have hmem := h.mem_infos hapart hne hat hk he
  rw [← keys_of_fits hfits] at hmem
  obtain ⟨m, hm, rfl⟩ := List.mem_map.1 hmem
  rw [Ledger.claims_of_held hheld]
  refine ⟨m, hm, rfl, Bool.eq_true_of_not_eq_false fun hfresh => ?_⟩
  have hall := ((List.forall₂_and_left _ _).1
    (hfits.imp fun b i hbi => ⟨(hbi.fresh rfl : b.exists_ = false → _), hbi⟩)).1
  have hnot := hall m hm hfresh
  rw [h.clears.accountExists, accountExists_of_held he] at hnot
  cases hnot

omit [Runtime.Lawful] [Bincode] [Bincode.Lawful] in
/-- **What the state claims is what is unlocked** at the end. -/
theorem Loads.unlocks {operator : AccountMeta} {system : Option AccountMeta} {M : Ledger}
    {S₁ : ProgramAccountStorage} (h : Loads operator system infos L S)
    (hM : ∀ k, M.held EthereumAccount k = L.held EthereumAccount k)
    (hclaimed : ∀ k ∈ S.solanaAccounts, k ∈ L.locked → k ∈ L.claims (some s))
    (hsupplied : ∀ k ∈ L.claims (some s), k ∈ S.solanaAccounts)
    (hworked : ({ S with ledger := M } : ProgramAccountStorage).Worked S₁) :
    M.locked \ {k | k ∈ S₁.handleKeys} = L.locked \ L.claims (some s) := by
  rw [Ledger.locked_congr hM]
  ext k
  rw [Set.mem_sdiff, Set.mem_sdiff, Set.mem_ofPred_eq, mem_handleKeys]
  refine and_congr_right fun hlocked => not_congr ⟨?_, fun hk => ?_⟩
  · rintro ⟨a, ha⟩
    rcases hworked.fresh ha with ha | hnone
    · exact hclaimed k (h.opened.account ha).1 hlocked
    · obtain ⟨d, rest, hd, -⟩ := hlocked
      rw [hM, hd] at hnone
      cases hnone
  · obtain ⟨d, rest, hd, -⟩ := hlocked
    exact ⟨_, hworked.grows (h.handle (hsupplied k hk) hd)⟩

end ProgramAccountStorage

omit [Platform] [Runtime.Lawful] [Bincode] [Bincode.Lawful] in
/-- What is applied at the end of a run is its journal. -/
theorem resultsOf_ok {result : ExitStatus} {stepsExecuted : ℕ} {backend : ExecutorState}
    {results : Option (ExitStatus × List Action)} {v : Unit}
    (h : resultsOf result stepsExecuted backend () = .ok results v)
    (hasks : AsksOthers backend.actions) : ∀ r, results = some r → AsksOthers r.2 := by
  rw [resultsOf] at h
  split_ifs at h
  · obtain ⟨rfl, -⟩ := pure_eq_ok.1 h
    intro r hr
    cases hr
  · obtain ⟨rfl, -⟩ := pure_eq_ok.1 h
    intro r hr
    cases hr
  · obtain ⟨actions, _, hinto, h⟩ := bind_eq_ok.1 h
    obtain ⟨rfl, -⟩ := pure_eq_ok.1 h
    intro r hr
    obtain rfl := Option.some.inj hr
    exact (intoActions_ok hinto).symm ▸ hasks

/-- What an iteration finds: the accounts on the list of its state are loaded, and nothing that is
locked is among the others. -/
structure Continues (info : AccountMeta) (accounts : StepAccounts) (state : Handle State)
    (L : Ledger) (S : ProgramAccountStorage) : Prop where
  loads : ProgramAccountStorage.Loads accounts.operator accounts.systemProgram
    accounts.remainingAccounts L S
  key : state.key = info.pubkey
  held : (S.ledger.held State info.pubkey).isSome
  saves : state.data.SavesForeign state.rest
  claims : L.claims (some info.pubkey) =
    {k | ∃ m ∈ state.data.listed state.rest, m.key = k ∧ m.exists_ = true}
  claimed : ∀ k ∈ S.solanaAccounts, k ∈ L.locked → k ∈ L.claims (some info.pubkey)
  openedFor : S.OpenedFor accounts L
  supplied : ∀ k ∈ L.claims (some info.pubkey), k ∈ S.solanaAccounts

omit [Bincode.Lawful] in
/-- **A state that is restored** goes on. -/
theorem State.restore_continues (hapart : KeysApart) (hL : L.Ordered) (hat : accounts.At L)
    {clock : Clock} {L₁ L₂ : Ledger} {operator : Pubkey}
    (hnew : ProgramAccountStorage.new clock accounts.operator accounts.systemProgram
      accounts.remainingAccounts L = .ok S L₁)
    (h : State.restore clock info operator accounts.remainingAccounts false L₁ =
      .ok (state, blocked) L₂) : S.ledger = L₂ ∧ Continues info accounts state L S := by
  obtain ⟨rfl, hloads⟩ := new_loads hL.placed hnew
  obtain ⟨rfl, hkey, d, op, slot, hheld, hdata, rfl, hfits⟩ := State.restore_ok h
  have hheldL : L.held State info.pubkey = some (d, state.rest) :=
    (hloads.clears.within.held_state _).symm.trans hheld
  have hlisted : state.data.listed state.rest = d.listed state.rest := by
    rw [hdata]
    rfl
  refine ⟨rfl, hloads, hkey, hheld ▸ rfl, ?_, ?_, fun k => ?_, openedFor_new hnew, fun k hk => ?_⟩
  · rw [hdata]
    exact fun hbytes hb => hL.saves hheldL hbytes hb
  · rw [Ledger.claims_of_held hheldL, hlisted]
  · exact hloads.claimed hapart Runtime.Lawful.systemProgramId_ne hat hheldL hfits
  · rw [Ledger.claims_of_held hheldL] at hk
    obtain ⟨m, hm, rfl, -⟩ := hk
    exact hloads.mem_supplied_of_infos (keys_of_fits hfits ▸ List.mem_map.2 ⟨m, hm, rfl⟩)

namespace Continues

variable {results : Option (ExitStatus × List Action)} {stepsExecuted : ℕ} {M : Ledger}
  {state' : Handle State}

omit [Bincode.Lawful] in
/-- **An iteration ends** once its state is written. -/
theorem finalize (h : Continues info accounts state L S) (hapart : KeysApart) (hat : accounts.At L)
    (hM : S.ledger.Within (· ∈ S.solanaAccounts) (· = info.pubkey) M)
    (hbypasses : S.ledger.Bypasses M)
    (haccounts : ∀ k, M.held EthereumAccount k = L.held EthereumAccount k)
    (hheld : (M.held State info.pubkey).isSome) (hsaves : state'.data.SavesForeign state'.rest)
    (hlisted : state'.data.listed state'.rest = state.data.listed state.rest)
    (hresults : ∀ r, results = some r → AsksOthers r.2)
    (hrun : finalizeStep stepsExecuted info accounts state' results gasometer
      { S with ledger := M } = .ok u S') : L.Turn (some info.pubkey) S'.ledger := by
  have hwithin : L.Within (· ∈ S.solanaAccounts) (· = info.pubkey) S.ledger :=
    h.loads.clears.within.mono (fun _ hk => hk) fun _ hk => hk.elim
  refine turn_finalizeStep hapart (h.loads.opened.of_within hM) ((h.loads.canPay hat).within hM)
    (h.openedFor.bypasses hbypasses) (hwithin.trans hM) h.claimed hheld hsaves (fun k (hk : k ∈ (∅ : Set Pubkey)) => hk.elim) ?_ ?_
    hresults (fun _ {_} hworked => h.loads.unlocks haccounts h.claimed h.supplied hworked) hrun
  · rw [Set.union_empty]
    exact Ledger.locked_congr haccounts
  · rw [hlisted, Set.union_empty, h.claims]

/-- **A run is saved**, if it took a step, and what it left is applied, if it is over. -/
theorem iterate (h : Continues info accounts state L S) (hapart : KeysApart) (hat : accounts.At L)
    {result : ExitStatus} {backend : ExecutorState} {machine : Machine}
    (hasks : AsksOthers backend.actions)
    (hrun : (do
      let saved := if result ≠ ExitStatus.stepLimit && 0 < stepsExecuted then
        { backend with exitStatus := some result } else backend
      let state ← if 0 < stepsExecuted then onLedger (serializeEvmState state saved machine)
        else pure state
      let results ← lift (resultsOf result stepsExecuted saved)
      finalizeStep stepsExecuted info accounts state results gasometer) S = .ok u S') :
    L.Turn (some info.pubkey) S'.ledger := by
  dsimp only at hrun
  generalize hsaved : (if (decide (result ≠ ExitStatus.stepLimit) && decide (0 < stepsExecuted)) =
    true then { backend with exitStatus := some result } else backend) = saved at hrun
  have hasks : AsksOthers saved.actions := by
    rw [← hsaved]
    split_ifs <;> exact hasks
  have hheld : (S.ledger.held State state.key).isSome := h.key ▸ h.held
  split_ifs at hrun with hsteps
  · obtain ⟨state', S₁, hsave, hrun⟩ := bind_eq_ok.1 hrun
    obtain ⟨⟨d, rfl⟩, hlisted, hbytes⟩ := onLedger_serialize_ok hheld hsave
    obtain ⟨results, _, hlift, hrun⟩ := bind_eq_ok.1 hrun
    obtain ⟨hresults, rfl⟩ := lift_eq_ok.1 hlift
    rw [h.key] at hrun
    obtain ⟨e, he⟩ := Option.isSome_iff_exists.1 h.held
    refine h.finalize hapart hat (within_writeState h.held) (bypasses_setState h.held rfl rfl)
      (fun k => ?_)
      (held_writeState h.held ▸ rfl) (savesForeign_of_saved hbytes hasks) hlisted
      (resultsOf_ok hresults hasks) hrun
    exact (Ledger.held_ethereum_setOther (Ledger.held_ethereum_of_state he)
      (fun {_ _} hc => by cases hc) k).trans (h.loads.clears.account k)
  · obtain ⟨_, _, hpure, hrun⟩ := bind_eq_ok.1 hrun
    obtain ⟨rfl, rfl⟩ := pure_eq_ok.1 hpure
    obtain ⟨results, _, hlift, hrun⟩ := bind_eq_ok.1 hrun
    obtain ⟨hresults, rfl⟩ := lift_eq_ok.1 hlift
    exact h.finalize hapart hat .refl (refl_of Ledger.Bypasses _) h.loads.clears.account h.held
      h.saves rfl
      (resultsOf_ok hresults hasks) hrun

end Continues

/-- **A transaction goes on**, or is over. -/
theorem turn_continue (hapart : KeysApart) (hbuilders : BuildersApart) (hL : L.Ordered)
    (hat : accounts.At L) {clock : Clock} {L₁ L₂ : Ledger} {operator : Pubkey} {stepCount : ℕ}
    (hnew : ProgramAccountStorage.new clock accounts.operator accounts.systemProgram
      accounts.remainingAccounts L = .ok S L₁)
    (hrestore : State.restore clock info operator accounts.remainingAccounts false L₁ =
      .ok (state, blocked) L₂)
    (h : onAccounts S (doContinue stepCount info accounts state gasometer) L₂ = .ok u L') :
    L.Turn (some info.pubkey) L' := by
  obtain ⟨rfl, hcontinues⟩ := State.restore_continues hapart hL hat hnew hrestore
  obtain ⟨S', hrun, rfl⟩ := onAccounts_ok h
  obtain ⟨_, _, hfail, hrun⟩ := bind_eq_ok.1 hrun
  obtain ⟨-, rfl⟩ := failIf_eq_ok.1 hfail
  obtain ⟨_, _, hget, hrun⟩ := bind_eq_ok.1 hrun
  obtain ⟨rfl, rfl⟩ := get_eq_ok.1 hget
  obtain ⟨⟨backend, machine⟩, _, hload, hrun⟩ := bind_eq_ok.1 hrun
  obtain ⟨hloaded, rfl⟩ := lift_eq_ok.1 hload
  obtain ⟨bytes, hbytes, hback⟩ := deserializeEvmState_ok hloaded
  have hasks : AsksOthers backend.actions := hcontinues.saves hbytes hback
  dsimp only at hrun
  rcases hexit : backend.exitStatus with _ | status
  · rw [hexit] at hrun
    obtain ⟨⟨⟨result, stepsExecuted⟩, backend', machine'⟩, _, hexecute, hrun⟩ := bind_eq_ok.1 hrun
    obtain ⟨hexecuted, rfl⟩ := lift_eq_ok.1 hexecute
    exact hcontinues.iterate hapart hat (asksOthers_executeMachine hbuilders hexecuted hasks) hrun
  · rw [hexit] at hrun
    obtain ⟨_, _, hpure, hrun⟩ := bind_eq_ok.1 hrun
    obtain ⟨rfl, rfl⟩ := pure_eq_ok.1 hpure
    exact hcontinues.iterate hapart hat hasks hrun

end

end NeonEvm
