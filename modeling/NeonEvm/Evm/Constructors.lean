import NeonEvm.Evm.CodeWrites
import NeonEvm.Evm.Creation

/-!
# Evm/Constructors — a constructor is opened where nothing is

    count the creator · fork · snapshot · nonce = 0? · code size = 0? · count the new account

Both reads go through the journal.  In a journal in order a nonce of zero says that the address was
never counted, so that it has no code there, and the code size is the backend's.
-/

namespace NeonEvm

open Exec ExecutorState Chain

/-- Nothing is at the address. -/
def AccountStorage.Vacant (B : AccountStorage) (a : Address) : Prop :=
  B.nonce a = some 0 ∧ B.codeSize a = some 0

variable {α : Type} {B : AccountStorage} {s t u : Evm} {actions : List Action} {address : Address}

/-! ## What a creation has read -/

namespace Overlay

theorem nonceStep_le {x : Action} {stored n : ℕ} (h : nonceStep address stored x = .ok n) :
    stored ≤ n ∧ (x.counted = some address → stored < n) := by
  rcases x with _ | _ | _ | _ | a | _ | _
  case evmIncrementNonce =>
    rw [nonceStep] at h
    split_ifs at h with ha hmax
    · obtain rfl := Except.ok.inj h
      exact ⟨Nat.le_succ _, fun _ => Nat.lt_succ_self _⟩
    · obtain rfl := Except.ok.inj h
      exact ⟨le_rfl, fun hcounted => absurd (Option.some.inj hcounted).symm ha⟩
  all_goals exact ⟨(Except.ok.inj h).le, nofun⟩

/-- **A nonce counts what the journal counts.** -/
theorem nonce_le {stored n : ℕ} (h : nonce address stored actions = .ok n) :
    stored ≤ n ∧ (address ∈ countedBy actions → stored < n) := by
  induction actions generalizing stored with
  | nil => exact ⟨(Except.ok.inj h).le, fun hmem => (List.not_mem_nil hmem).elim⟩
  | cons x xs ih =>
    rw [nonce, List.foldlM_cons] at h
    obtain ⟨m, hm, hn⟩ := except_bind_eq_ok.1 h
    obtain ⟨hle, hlt⟩ := nonceStep_le hm
    obtain ⟨hle', hlt'⟩ := ih hn
    refine ⟨hle.trans hle', fun hmem => ?_⟩
    obtain ⟨y, hy, hcounted⟩ := List.mem_filterMap.1 hmem
    rcases List.mem_cons.1 hy with rfl | hy
    · exact (hlt hcounted).trans_le hle'
    · exact hle.trans_lt (hlt' (List.mem_filterMap.2 ⟨y, hy, hcounted⟩))

theorem codeOf_eq_some {x : Action} {code : Buffer} (h : codeOf address x = some code) :
    x.coded = some address := by
  rcases x with _ | _ | _ | _ | _ | ⟨a, b⟩ | _
  case evmSetCode =>
    rw [codeOf] at h
    split_ifs at h with ha
    exact congrArg some ha.symm
  all_goals exact nomatch h

/-- An address without a code in the journal. -/
theorem code_eq_none (h : address ∉ codedBy actions) : code address actions = none := by
  rw [code, List.findSome?_eq_none_iff]
  intro x hx
  rw [Option.eq_none_iff_forall_ne_some]
  exact fun c hc => h (List.mem_filterMap.2 ⟨x, hx, codeOf_eq_some hc⟩)

end Overlay

/-- A nonce that was read. -/
theorem ExecutorState.nonce_read {n : ℕ} {b d : Database} (h : nonce B address b = .ok n d) :
    b = d ∧ ∃ stored, B.nonce address = some stored ∧
      Overlay.nonce address stored b.actions = .ok n := by
  simp only [nonce, bind_eq_ok, ofOption_eq_ok, gets_eq_ok, ofExcept_eq_ok] at h
  obtain ⟨stored, _, ⟨hstored, rfl⟩, _, _, ⟨rfl, rfl⟩, hn, rfl⟩ := h
  exact ⟨rfl, stored, hstored, hn⟩

/-- A code size that was read, of an address without a code in the journal. -/
theorem ExecutorState.codeSize_read {b d : Database} (h : codeSize B address b = .ok 0 d)
    (hnone : address ∉ codedBy b.actions) : b = d ∧ B.codeSize address = some 0 := by
  unfold codeSize at h
  split_ifs at h with hextension
  · exact absurd (pure_eq_ok.1 h).1 one_ne_zero
  · obtain ⟨acts, _, hacts, hd⟩ := bind_eq_ok.1 h
    obtain ⟨rfl, rfl⟩ := gets_eq_ok.1 hacts
    rw [Overlay.code_eq_none hnone] at hd
    exact ⟨(ofOption_eq_ok.1 hd).2, (ofOption_eq_ok.1 hd).1⟩

/-- **Nothing is at an address** whose nonce and code size read as zero. -/
theorem ExecutorState.vacant_of_reads {b d d' : Database}
    (hb : deployments.Orderly B.Vacant b.actions) (hnonce : nonce B address b = .ok 0 d)
    (hsize : codeSize B address b = .ok 0 d') :
    B.Vacant address ∧ address ∉ countedBy b.actions := by
  obtain ⟨-, stored, hstored, hoverlay⟩ := nonce_read hnonce
  obtain ⟨hle, hlt⟩ := Overlay.nonce_le hoverlay
  have hfresh : address ∉ countedBy b.actions := fun hmem => absurd (hlt hmem) (Nat.not_lt_zero _)
  have hzero := (codeSize_read hsize fun hmem => hfresh (hb.mem_reserved hmem)).2
  exact ⟨⟨hstored.trans (congrArg some (Nat.le_zero.1 hle)), hzero⟩, hfresh⟩

theorem db_eq_ok {x : Db α} {a : α} : Evm.db x s = .ok a t ↔
    ∃ d, x s.backend.toDatabase = .ok a d ∧ s.setBackend (s.backend.setDatabase d) = t := by
  rw [db_run]
  rcases x s.backend.toDatabase with ⟨b, d⟩ | ⟨e, d⟩ | p
  · simp only [Outcome.ok.injEq]
    exact ⟨fun ⟨ha, ht⟩ => ⟨d, ⟨ha, rfl⟩, ht⟩, fun ⟨_, ⟨ha, hd⟩, ht⟩ => ⟨ha, hd ▸ ht⟩⟩
  · simp
  · simp

/-- Nothing is appended, in the same frame. -/
structure Evm.Idle (s t : Evm) : Prop where
  actions : t.backend.actions = s.backend.actions
  env : t.env = s.env

instance : IsTrans Evm Evm.Idle :=
  ⟨fun _ _ _ h h' => ⟨h'.actions.trans h.actions, h'.env.trans h.env⟩⟩

instance : Std.Refl Evm.Idle := ⟨fun _ => ⟨rfl, rfl⟩⟩

theorem idle_onLocals (x : LocalM α) : Moves Evm.Idle (Evm.onLocals x) := fun s => by
  unfold Evm.onLocals zoom
  rcases x s.frame.locals with ⟨a, l⟩ | ⟨e, l⟩ | p
  · exact ⟨rfl, rfl⟩
  · exact ⟨rfl, rfl⟩
  · trivial

theorem idle_db {x : Db α} (hx : Moves (Grows B fun _ => False) x) :
    Moves Evm.Idle (Evm.db x) := by
  have idle {s t : Evm} (h : Work B s.chain t.chain fun _ => False) : s.Idle t :=
    ⟨h.grows.actions_eq fun _ => id, h.env⟩
  exact fun s => (works_db hx s).imp (fun _ _ h => idle h) (fun _ _ h => idle h) fun _ _ => trivial

theorem idle_emit (e : Event) : Moves Evm.Idle (Evm.emit e) := moves_modify fun _ => ⟨rfl, rfl⟩

theorem idle_takeSnapshot : Moves Evm.Idle Evm.takeSnapshot := moves_modify fun _ => ⟨rfl, rfl⟩

theorem idle_requireBalance (value : U256) : Moves Evm.Idle (Evm.requireBalance B value) :=
  moves_bind moves_get fun _ => moves_bind (idle_db (moves_balance _)) fun _ => moves_failIf _ _

/-- An operation on the database stays in its frame. -/
theorem env_of_db {x : Db α} {a : α} (h : Evm.db x s = .ok a t) : t.env = s.env := by
  have hopen := staysOpen_db (s := s) x
  rw [h] at hopen
  exact hopen.env

/-- **A constructor is opened** where nothing is: neither in the backend nor in the journal. -/
theorem openCreate_ok {value : U256} {d : Context × Buffer} {a : OpAction}
    (hs : deployments.Orderly B.Vacant s.backend.actions)
    (h : Evm.openCreate B address value d s = .ok a t) :
    t.env.context.contract = address ∧ B.Vacant address ∧
      address ∉ countedBy s.backend.actions := by
  simp only [Evm.openCreate, bind_eq_ok] at h
  obtain ⟨_, s₁, hemit, _, s₂, hcode, _, s₃, hmagic, _, s₄, hfork, _, s₅, hsnapshot, _, s₆, hget, n,
    s₇, hnonce, _, s₈, hn, m, s₉, hsize, _, s₁₀, hm, _, s₁₁, hbalance, _, s₁₂, hcount, _, s₁₃, htransfer,
    hpure⟩ := h
  have hbefore : s.Idle s₃ := Trans.trans ((idle_emit _).returns _ _ _ hemit)
    (Trans.trans ((idle_db (moves_code _)).returns _ _ _ hcode)
      ((moves_failIf (R := Evm.Idle) _ _).returns _ _ _ hmagic))
  have hforked := fork_run .create
    { caller := d.1.contract, contract := address, value, codeAddress := none } d.2 .empty none s₃
  rw [hfork] at hforked
  obtain ⟨_, _, hchain⟩ := hforked
  have hread : s₄.Idle s₆ := Trans.trans (idle_takeSnapshot.returns _ _ _ hsnapshot)
    ((moves_get (R := Evm.Idle)).returns _ _ _ hget)
  have hacts : s₆.backend.actions = s.backend.actions :=
    hread.actions.trans ((congrArg (·.backend.actions) hchain).trans hbefore.actions)
  have hchecked : s₆.Idle s₈ := Trans.trans ((idle_db (moves_nonce _)).returns _ _ _ hnonce)
    ((moves_failIf (R := Evm.Idle) _ _).returns _ _ _ hn)
  have hpaid : s₈.Idle s₁₁ := Trans.trans ((idle_db (moves_codeSize _)).returns _ _ _ hsize)
    (Trans.trans ((moves_failIf (R := Evm.Idle) _ _).returns _ _ _ hm)
      ((idle_requireBalance _).returns _ _ _ hbalance))
  have hzero : n = 0 := by simpa using (failIf_eq_ok.1 hn).1
  have hsizeZero : m = 0 := by simpa using (failIf_eq_ok.1 hm).1
  subst hzero hsizeZero
  obtain ⟨d₆, hnonce, hd₆⟩ := db_eq_ok.1 hnonce
  obtain ⟨rfl, -⟩ := nonce_read hnonce
  obtain ⟨d₈, hsize, -⟩ := db_eq_ok.1 hsize
  have hdatabase : s₈.backend.toDatabase = s₆.backend.toDatabase := by
    rw [← (failIf_eq_ok.1 hn).2, ← hd₆]
    rfl
  rw [hdatabase] at hsize
  obtain ⟨hvacant, hfresh⟩ := vacant_of_reads (hacts ▸ hs) hnonce hsize
  refine ⟨?_, hvacant, hacts ▸ hfresh⟩
  have henv : t.env = s₄.env := by
    rw [← (pure_eq_ok.1 hpure).2, env_of_db htransfer, env_of_db hcount, hpaid.env, hchecked.env,
      hread.env]
  rw [henv]
  exact congrArg (·.env.context.contract) hchain

/-- Up to its child, a creation counts in its creator's nonce. -/
theorem readCreate_ok {offset length : ℕ} {d : Context × Buffer}
    (h : Evm.readCreate B offset length s = .ok d t) :
    t.backend.actions = s.backend.actions ++ [.evmIncrementNonce s.env.context.contract] := by
  simp only [Evm.readCreate, bind_eq_ok, get_eq_ok] at h
  obtain ⟨_, _, ⟨rfl, rfl⟩, _, s₁, hnonce, _, s₂, hmax, _, s₃, hcount, _, s₄, hforget, _, s₅, hread,
    hpure⟩ := h
  have hbefore : s.Idle s₂ := Trans.trans ((idle_db (moves_nonce _)).returns _ _ _ hnonce)
    ((moves_failIf (R := Evm.Idle) _ _).returns _ _ _ hmax)
  have hafter : s₃.Idle s₅ := Trans.trans ((idle_onLocals _).returns _ _ _ hforget)
    ((idle_onLocals _).returns _ _ _ hread)
  rw [incrementNonce, db_pushAction_run] at hcount
  obtain ⟨-, rfl⟩ := Outcome.ok.inj hcount
  rw [← (pure_eq_ok.1 hpure).2, hafter.actions]
  exact congrArg (· ++ _) hbefore.actions

/-- **The two creations** succeed only where nothing is. -/
theorem create_ok {args : EvmM Evm.CreateArgs} (hargs : Moves Evm.Idle args) {a : OpAction}
    (hs : deployments.Orderly B.Vacant s.backend.actions)
    (h : (args >>= fun c => Evm.opcodeCreateImpl B c.address c.value c.offset c.length) s = .ok a t) :
    ∃ c u, args s = .ok c u ∧ t.env.context.contract = c.address ∧ B.Vacant c.address ∧
      c.address ∉ countedBy (s.backend.actions ++ [.evmIncrementNonce s.env.context.contract]) := by
  obtain ⟨c, u, hc, himpl⟩ := bind_eq_ok.1 h
  rw [opcodeCreateImpl_eq] at himpl
  obtain ⟨d, v, hread, hopen⟩ := bind_eq_ok.1 himpl
  have hidle := hargs.returns _ _ _ hc
  have hv : v.backend.actions =
      s.backend.actions ++ [.evmIncrementNonce s.env.context.contract] := by
    rw [readCreate_ok hread, hidle.actions, hidle.env]
  obtain ⟨hcontract, hvacant, hfresh⟩ := openCreate_ok (hv ▸ hs.append rfl) hopen
  exact ⟨c, u, hc, hcontract, hvacant, hv ▸ hfresh⟩

section

variable [Platform]

theorem idle_popCreate : Moves Evm.Idle (Evm.popCreate B) :=
  moves_bind moves_get fun _ => moves_ite (fun _ => moves_fail _) fun _ =>
    moves_bind (idle_onLocals _) fun _ => moves_bind (idle_onLocals _) fun _ =>
    moves_bind (idle_onLocals _) fun _ => moves_bind (idle_db (moves_nonce _)) fun _ =>
    moves_bind (idle_onLocals _) fun _ => moves_pure _

theorem idle_popCreate2 : Moves Evm.Idle Evm.popCreate2 :=
  moves_bind moves_get fun _ => moves_ite (fun _ => moves_fail _) fun _ =>
    moves_bind (idle_onLocals _) fun _ => moves_bind (idle_onLocals _) fun _ =>
    moves_bind (idle_onLocals _) fun _ => moves_bind (idle_onLocals _) fun _ =>
    moves_bind (idle_onLocals _) fun _ => moves_pure _

/-- **A creation that succeeds** found nothing at the address that it computed. -/
theorem opcode_create_ok {op : Opcode} {args : EvmM Evm.CreateArgs} {a : OpAction}
    (hop : Evm.popCreation B op = some args)
    (hs : deployments.Orderly B.Vacant s.backend.actions) (h : op.run B s = .ok a t) :
    ∃ c u, args s = .ok c u ∧ t.env.context.contract = c.address ∧ B.Vacant c.address ∧
      c.address ∉ countedBy (s.backend.actions ++ [.evmIncrementNonce s.env.context.contract]) := by
  match op, hop with
  | .sys .create, hop =>
    obtain rfl := Option.some.inj hop
    refine create_ok idle_popCreate hs (a := a) ?_
    rw [← opcodeCreate_eq]
    exact h
  | .sys .create2, hop =>
    obtain rfl := Option.some.inj hop
    refine create_ok idle_popCreate2 hs (a := a) ?_
    rw [← opcodeCreate2_eq]
    exact h

omit [Platform] in
theorem KeepsParents.length_ne {a : OpAction} (h : KeepsParents s (.ok a t)) :
    t.parents.length ≠ s.parents.length + 1 := by
  rw [show t.parents = s.parents from h]
  exact (Nat.succ_ne_self _).symm

omit [Platform] in
theorem Calls.reason_of_opens {withValue : Bool} {a : OpAction} (h : Calls withValue s (.ok a t))
    (hlen : t.parents.length = s.parents.length + 1) : t.env.reason = .call := by
  obtain ⟨args, l, -, ⟨-, hc⟩ | ⟨_, _, _, _, _, _, hg⟩⟩ := h
  · exact hc.reason
  · exact absurd hlen (hg.parents ▸ (Nat.succ_ne_self _).symm)

theorem Ends.length_ne {e : Ending} {a : OpAction} (h : Ends B e s (.ok a t)) :
    t.parents.length ≠ s.parents.length + 1 := by
  rcases h with ⟨-, m, p, hl⟩ | ⟨-, m, hx⟩
  · have hlonger : s.parents.length = t.parents.length + 1 := hl.length
    omega
  · rw [show t.parents = [] from hx.parents]
    exact (Nat.succ_ne_zero _).symm

/-- **Only the creations open constructors.** -/
theorem exists_popCreation {op : Opcode} {a : OpAction} (h : op.run B s = .ok a t)
    (hlen : t.parents.length = s.parents.length + 1) (hcreate : t.env.reason = .create) :
    ∃ args, Evm.popCreation B op = some args := by
  have called {withValue : Bool} {o : Outcome Panic Error Evm OpAction} (ho : o = .ok a t)
      (hc : Calls withValue s o) : False := by
    rw [ho] at hc
    exact nomatch (hc.reason_of_opens hlen).symm.trans hcreate
  have stays {o : Outcome Panic Error Evm OpAction} (ho : o = .ok a t) (hc : KeepsParents s o) :
      False := by
    rw [ho] at hc
    exact hc.length_ne hlen
  have ends {e : Ending} {o : Outcome Panic Error Evm OpAction} (ho : o = .ok a t)
      (hc : Ends B e s o) : False := by
    rw [ho] at hc
    exact hc.length_ne hlen
  cases op with
  | loc op => exact (stays h (keepsParents_onLocals _)).elim
  | sys op =>
    cases op with
    | sload => exact (stays h (staysOpen_opcodeSload s).keepsParents).elim
    | sstore => exact (stays h (staysOpen_opcodeSstore s).keepsParents).elim
    | create => exact ⟨_, rfl⟩
    | create2 => exact ⟨_, rfl⟩
    | call => exact (called h (calls_opcode .call rfl s)).elim
    | callcode => exact (called h (calls_opcode .callcode rfl s)).elim
    | delegatecall => exact (called h (calls_opcode .delegatecall rfl s)).elim
    | staticcall => exact (called h (calls_opcode .staticcall rfl s)).elim
    | ret => exact (ends h (ends_opcodeReturn (B := B) s)).elim
    | revert => exact (ends h (ends_opcodeRevert (B := B) s)).elim
    | stop => exact (ends h (ends_opcodeStop (B := B) s)).elim
    | selfdestruct => exact (ends h (ends_opcodeSelfdestruct s)).elim
    | retf => exact (stays h (keepsParents_opcodeRetf s)).elim

end

end NeonEvm
