import NeonEvm.Evm.TracedDepth
import NeonEvm.Executor.Requests

/-!
# Evm/Appends — what an opcode does to the journal, for any rule that appending keeps

    append    a nonce, a transfer, a slot, a destruction, what an extension asks for
    take      a snapshot is taken back
    store     the code of a constructor, at its end

A rule relates the databases before and after.  An opcode keeps it, or it ends with the call of an
extension, or it stores the code of its frame; those two no rule has to know.
-/

namespace NeonEvm

open Exec ExecutorState Chain

/-- The address that an action gives code to. -/
def Action.coded : Action → Option Address
  | evmSetCode address _ => some address
  | _ => none

/-- **A rule about databases**, that blocks in `P` keep. -/
structure Rule (B : AccountStorage) (R : Database → Database → Prop) (P : List Action → Prop) :
    Prop where
  append {d d' : Database} (h : Grows B P d d') : R d d'
  take (d : Database) (n : ℕ) : R d { d with actions := d.actions.take n }
  plain {x : Action} (hcode : x.coded = none) (hx : x.isInstruction = false) : P [x]

variable {α β : Type} {B : AccountStorage} {R : Database → Database → Prop}
  {P : List Action → Prop} {s t u : Evm}

/-! ## Computations that keep a rule -/

/-- The databases are related. -/
def Evm.Keeps (R : Database → Database → Prop) (s t : Evm) : Prop :=
  R s.backend.toDatabase t.backend.toDatabase

/-- The databases are related, and the journal has only grown. -/
structure Evm.Adds (R : Database → Database → Prop) (s t : Evm) : Prop where
  keeps : s.Keeps R t
  grows : s.backend.actions <+: t.backend.actions

/-- The same, in one frame. -/
structure Evm.Stays (R : Database → Database → Prop) (s t : Evm) : Prop extends Evm.Adds R s t where
  reason : t.env.reason = s.env.reason
  context : t.env.context = s.env.context

/-- **A constructor stores its code** — its own, behind what the journal held. -/
structure Evm.Stores (s t : Evm) : Prop where
  reason : s.env.reason = .create
  stacked : s.backend.stack ≠ []
  cache : t.backend.cache = s.backend.cache
  actions : ∃ code, t.backend.actions =
    s.backend.actions ++ [.evmSetCode s.env.context.contract code]

/-! ## The call of an extension -/

/-- **An extension was called** for a caller, on a database that keeps the rule and whose journal
has only grown, and it has left the database that is there. -/
def Evm.Extends [Platform] (B : AccountStorage) (R : Database → Database → Prop) (caller : Address)
    (s t : Evm) : Prop :=
  ∃ (d : Database) (context : Context) (address : Address) (input : Bytes) (isStatic : Bool)
    (x : Db Bytes), R s.backend.toDatabase d ∧ s.backend.actions <+: d.actions ∧
      context.caller = caller ∧
      callPrecompileExtension B context address input isStatic = some x ∧
      (x d).Leaves t.backend.toDatabase

/-- The rule is kept, or an extension was called for the caller. -/
def Evm.Calls [Platform] (B : AccountStorage) (R : Database → Database → Prop) (caller : Address)
    (s t : Evm) : Prop := s.Keeps R t ∨ s.Extends B R caller t

/-- The names that a frame asks in. -/
def Evm.Asks (s : Evm) (a : Address) : Prop :=
  a = s.env.context.contract ∨ a = s.env.context.caller

/-- The rule is kept, or an extension was called in one of the names of the frame. -/
def Evm.Acts [Platform] (B : AccountStorage) (R : Database → Database → Prop) (s t : Evm) : Prop :=
  ∃ caller, s.Asks caller ∧ s.Calls B R caller t

theorem stays_zoom {τ ρ : Type} {view : Evm → τ} {put : Evm → τ → Evm} {ab : ρ → Panic}
    {x : Exec ρ Error τ α} (h : ∀ s c, Evm.Stays R s (put s c)) :
    Moves (Evm.Stays R) (zoom view put ab x) := fun s => by
  unfold zoom
  cases x (view s) with
  | ok a c => exact h s c
  | err e c => exact h s c
  | panic p => trivial

theorem keeps_of_stays {x : EvmM α} (hx : Moves (Evm.Stays R) x) : Moves (Evm.Keeps R) x :=
  hx.mono fun _ _ h => h.keeps

section

variable [Std.Refl R]

instance : Std.Refl (Evm.Keeps R) := ⟨fun _ => refl_of R _⟩

instance : Std.Refl (Evm.Stays R) := ⟨fun _ => ⟨⟨refl_of R _, List.prefix_rfl⟩, rfl, rfl⟩⟩

theorem Evm.Keeps.of_eq (h : t.backend.toDatabase = s.backend.toDatabase) : s.Keeps R t := by
  rw [Evm.Keeps, h]
  exact refl_of R _

theorem stays_onLocals (x : LocalM α) : Moves (Evm.Stays R) (Evm.onLocals x) :=
  stays_zoom fun _ _ => ⟨⟨refl_of R _, List.prefix_rfl⟩, rfl, rfl⟩

theorem stays_fallible (x : Fallible α) : Moves (Evm.Stays R) (Evm.fallible x) :=
  stays_zoom fun _ _ => ⟨⟨refl_of R _, List.prefix_rfl⟩, rfl, rfl⟩

theorem stays_emit (e : Event) : Moves (Evm.Stays R) (Evm.emit e) :=
  moves_modify fun _ => ⟨⟨refl_of R _, List.prefix_rfl⟩, rfl, rfl⟩

theorem stays_takeSnapshot : Moves (Evm.Stays R) Evm.takeSnapshot :=
  moves_modify fun _ => ⟨⟨refl_of R _, List.prefix_rfl⟩, rfl, rfl⟩

theorem keeps_leave (exit : OpAction) (status : ExitStatus) (returnData : Option Bytes)
    (delivery : Frame → LocalM Unit) :
    Moves (Evm.Keeps R) (Evm.leave exit status returnData delivery) := fun s => by
  refine (leave_run s).imp (fun a t h => ?_) (fun e t h => ?_) fun _ _ => trivial
  · rcases h with ⟨-, -, rfl⟩ | ⟨p, -, -, hbackend, -⟩
    · exact refl_of (Evm.Keeps R) t
    · exact .of_eq (congrArg (·.toDatabase) hbackend)
  · obtain ⟨p, -, -, hbackend⟩ := h
    exact .of_eq (congrArg (·.toDatabase) hbackend)

theorem keeps_fork (reason : Reason) (context : Context) (executionCode callData : Buffer)
    (gasLimit : Option U256) :
    Moves (Evm.Keeps R) (Evm.fork reason context executionCode callData gasLimit) := fun s =>
  (fork_run reason context executionCode callData gasLimit s).imp
    (fun _ _ ⟨_, _, h⟩ => .of_eq (congrArg (·.backend.toDatabase) h))
    (fun _ t h => h ▸ refl_of (Evm.Keeps R) t) fun _ _ => trivial

end

section

variable [IsTrans Database R]

instance : IsTrans Evm (Evm.Keeps R) := ⟨fun _ _ _ h h' => trans_of R h h'⟩

instance : IsTrans Evm (Evm.Stays R) :=
  ⟨fun _ _ _ h h' => ⟨⟨Trans.trans h.keeps h'.keeps, h.grows.trans h'.grows⟩,
    h'.reason.trans h.reason, h'.context.trans h.context⟩⟩

/-- Behind a part that keeps the rule. -/
theorem Evm.Adds.within [Platform] {caller : Address} {o : Outcome Panic Error Evm α}
    (h : s.Adds R t) (ho : o.Within (Evm.Calls B R caller) t) :
    o.Within (Evm.Calls B R caller) s := by
  have hcalls {u : Evm} (hu : t.Calls B R caller u) : s.Calls B R caller u := by
    refine hu.imp (fun hu => Trans.trans h.keeps hu) ?_
    rintro ⟨d, context, address, input, isStatic, x, hd, hgrows, hx⟩
    exact ⟨d, context, address, input, isStatic, x, trans_of R h.keeps hd, h.grows.trans hgrows, hx⟩
  exact Outcome.Sat.imp ho (fun _ _ => hcalls) (fun _ _ => hcalls) fun _ h => h

omit [IsTrans Database R] in
/-- Where the rule is kept, no extension is needed. -/
theorem calls_of_keeps [Platform] {caller : Address} {o : Outcome Panic Error Evm α}
    (h : o.Within (Evm.Keeps R) s) : o.Within (Evm.Calls B R caller) s :=
  Outcome.Sat.imp h (fun _ _ => .inl) (fun _ _ => .inl) fun _ h => h

/-- Along a computation in the same frame. -/
theorem within_bind [Platform] {caller : Address} {x : EvmM α} {f : α → EvmM β}
    (hx : Moves (Evm.Stays R) x)
    (hf : ∀ a u, t.Stays R u → (f a u).Within (Evm.Calls B R caller) u) :
    ((x >>= f) t).Within (Evm.Calls B R caller) t :=
  ((hx t).imp (fun _ _ h => h) (fun _ _ h => .inl h.keeps) fun _ h => h).andThen fun a u hu =>
    hu.toAdds.within (hf a u hu)

end

/-- The database behind a snapshot that was taken back. -/
theorem takeBack_database {e : Ending} {b b' : ExecutorState} {a : Unit}
    (h : e.takeBack b = .ok a b') :
    b'.toDatabase = ⟨b.cache, (e.act b.journal).entries⟩ := by
  obtain ⟨-, hjournal, hcache⟩ := Ending.takeBack_ok h
  rw [← hcache, ← hjournal]
  rfl

/-- A commit leaves the database as it is. -/
theorem keeps_commit [Std.Refl R] : Moves (Evm.Keeps R) (Evm.dbStack commitSnapshot) := fun s => by
  unfold Evm.dbStack zoom
  rcases h : commitSnapshot s.backend with ⟨_, b⟩ | ⟨err, b⟩ | p
  · exact .of_eq (takeBack_database (e := .commit) h)
  · exact (Ending.takeBack_ne_err .commit _ _ _ h).elim
  · trivial

section

variable [Std.Refl R] [IsTrans Database R]

theorem keeps_leaveEmpty (exit : OpAction) (status : ExitStatus) :
    Moves (Evm.Keeps R) (Evm.leaveEmpty exit status) :=
  moves_bind keeps_commit fun _ => keeps_leave _ _ _ _

/-- **A frame that was called** returns without a code. -/
theorem within_opcodeReturnImpl (hreason : t.env.reason ≠ .create)
    (data : Buffer) : (Evm.opcodeReturnImpl data t).Within (Evm.Keeps R) t := by
  unfold Evm.opcodeReturnImpl
  rw [bind_run, get_run, Outcome.ok_andThen]
  dsimp only
  rw [if_neg hreason]
  exact moves_bind (moves_pure data) (fun _ => moves_bind keeps_commit fun _ =>
    keeps_leave _ _ _ _) t

/-- **A precompile or an extension** answers for the frame that was called. -/
theorem within_opcodeCallPrecompileImpl [Platform] {caller : Address}
    (hreason : t.env.reason = .call) (hcaller : t.env.context.caller = caller) (address : Address) :
    (Evm.opcodeCallPrecompileImpl B address t).Within (Evm.Calls B R caller) t := by
  have hcreate {u : Evm} (hu : u.env.reason = t.env.reason) : u.env.reason ≠ .create := by
    rw [hu, hreason]
    nofun
  unfold Evm.opcodeCallPrecompileImpl
  rw [bind_run, get_run, Outcome.ok_andThen]
  rcases precompile address t.env.callData.toList with _ | x
  · rcases hx : callPrecompileExtension B t.env.context address t.env.callData.toList
      t.env.isStatic with _ | x
    · exact .inl (refl_of (Evm.Keeps R) t)
    · have extend {u : Evm} (hu : (x t.backend.toDatabase).Leaves u.backend.toDatabase) :
          t.Calls B R caller u :=
        .inr ⟨_, _, address, _, _, x, refl_of R _, List.prefix_rfl, hcaller, hx, hu⟩
      show ((Evm.db x >>= fun v => Evm.opcodeReturnImpl (Buffer.fromSlice v)) t).Within _ t
      rw [bind_run, db_run]
      rcases hrun : x t.backend.toDatabase with ⟨v, d⟩ | ⟨e, d⟩ | p
      · -- what follows leaves the database as the extension has left it
        refine (within_opcodeReturnImpl (R := Eq) ?_ _).imp (fun _ u hu => extend ?_)
          (fun _ u hu => extend ?_) fun _ h => h
        · exact hcreate rfl
        · exact .inl ⟨v, hrun.trans (congrArg _ hu)⟩
        · exact .inl ⟨v, hrun.trans (congrArg _ hu)⟩
      · exact extend (.inr ⟨e, hrun⟩)
      · trivial
  · exact within_bind (stays_fallible x) fun _ u hu =>
      calls_of_keeps (within_opcodeReturnImpl (hcreate hu.reason) _)

end

namespace Rule

variable (hR : Rule B R P)

include hR

/-- **On the database**, where blocks in `P` are appended. -/
theorem stays_db {x : Db α} (hx : Moves (Grows B P) x) : Moves (Evm.Stays R) (Evm.db x) := by
  have stays {s t : Evm} (h : Work B s.chain t.chain P) : s.Stays R t := by
    obtain ⟨acts, -, hacts⟩ := h.grows.actions
    exact ⟨⟨hR.append h.grows, ⟨acts, hacts.symm⟩⟩, congrArg (·.reason) h.env,
      congrArg (·.context) h.env⟩
  exact fun s => (works_db hx s).imp (fun _ _ h => stays h) (fun _ _ h => stays h)
    fun _ _ => trivial

theorem stays_push (x : Action) (hcode : x.coded = none) (hx : x.isInstruction = false) :
    Moves (Evm.Stays R) (Evm.db (pushAction x)) :=
  hR.stays_db (moves_pushAction (hR.plain hcode hx))

theorem stays_transfer (source target : Address) (value : U256) :
    Moves (Evm.Stays R) (Evm.db (transfer B source target value)) :=
  hR.stays_db (moves_transfer fun _ _ => hR.plain rfl rfl)

/-- **Reverting** cuts the journal. -/
theorem keeps_revert : Moves (Evm.Keeps R) (Evm.dbStack revertSnapshot) := fun s => by
  unfold Evm.dbStack zoom
  rcases h : revertSnapshot s.backend with ⟨_, b⟩ | ⟨err, b⟩ | p
  · show R s.backend.toDatabase b.toDatabase
    rw [takeBack_database (e := .revert) h]
    exact hR.take s.backend.toDatabase _
  · exact (Ending.takeBack_ne_err .revert _ _ _ h).elim
  · trivial

variable [Std.Refl R] [IsTrans Database R]

theorem stays_requireBalance (value : U256) : Moves (Evm.Stays R) (Evm.requireBalance B value) :=
  moves_bind moves_get fun _ => moves_bind (hR.stays_db (moves_balance _)) fun _ => moves_failIf _ _

theorem keeps_opcodeRevertImpl (data : Buffer) : Moves (Evm.Keeps R) (Evm.opcodeRevertImpl data) :=
  moves_bind hR.keeps_revert fun _ => keeps_leave _ _ _ _

/-! ## Calls -/

theorem stays_readCall (args : Evm.CallArgs) : Moves (Evm.Stays R) (Evm.readCall B args) :=
  moves_bind (stays_onLocals _) fun _ => moves_bind (stays_onLocals _) fun _ =>
    moves_bind (hR.stays_db (moves_code _)) fun _ => moves_pure _

variable [Platform]

/-- **The four calls**, whose children are called. -/
theorem within_call {withValue : Bool} {caller : Address} {f : Evm.CallArgs → EvmM OpAction}
    (context : Context → Evm.CallArgs → Context)
    (hf : ∀ args u, u.env.reason = .call → u.env.context = context s.env.context args →
      (f args u).Within (Evm.Calls B R caller) u) :
    ((do
      let args ← Evm.onLocals (Evm.popCallArgs withValue)
      let self := (← get).env.context
      Evm.forkCall B args (context self args)
      f args : EvmM OpAction) s).Within (Evm.Calls B R caller) s := by
  refine within_bind (stays_onLocals _) fun args t ht => ?_
  rw [bind_run, get_run, Outcome.ok_andThen, forkCall_eq, bind_bind, ht.context]
  refine within_bind (hR.stays_readCall args) fun d u _ => ?_
  rw [bind_bind]
  refine within_bind (stays_emit _) fun _ v _ => ?_
  have hkeeps := keeps_fork (R := R) .call (context s.env.context args) d.2 d.1
    (some args.gasLimit) v
  have hrun := fork_run .call (context s.env.context args) d.2 d.1 (some args.gasLimit) v
  rw [bind_run]
  rcases h : Evm.fork .call (context s.env.context args) d.2 d.1 (some args.gasLimit) v with
    ⟨_, w⟩ | ⟨e, w⟩ | p
  · rw [h] at hkeeps hrun
    obtain ⟨_, _, hchain⟩ := hrun
    have hactions : w.backend.actions = v.backend.actions := congrArg (·.backend.actions) hchain
    exact Evm.Adds.within ⟨hkeeps, hactions ▸ List.prefix_rfl⟩
      (hf args w (congrArg (·.env.reason) hchain) (congrArg (·.env.context) hchain))
  · rw [h] at hkeeps
    exact .inl hkeeps
  · trivial

theorem within_opcodeCall :
    (Evm.opcodeCall B s).Within (Evm.Calls B R s.env.context.contract) s :=
  hR.within_call (fun self args =>
    { caller := self.contract, contract := args.address, value := args.value
      codeAddress := some args.address }) fun _ _ hreason hcontext =>
    within_bind stays_takeSnapshot fun _ _ h₁ => within_bind moves_get fun _ _ h₂ =>
    within_bind (moves_failIf _ _) fun _ _ h₃ =>
    within_bind (hR.stays_requireBalance _) fun _ _ h₄ =>
    within_bind (hR.stays_transfer _ _ _) fun _ _ h₅ =>
    have h := Trans.trans h₁ (Trans.trans h₂ (Trans.trans h₃ (Trans.trans h₄ h₅)))
    within_opcodeCallPrecompileImpl (h.reason.trans hreason) (by rw [h.context, hcontext]) _

theorem within_opcodeCallcode :
    (Evm.opcodeCallcode B s).Within (Evm.Calls B R s.env.context.contract) s :=
  hR.within_call (fun self args =>
    { caller := self.contract, contract := self.contract, value := args.value
      codeAddress := some args.address }) fun _ _ hreason hcontext =>
    within_bind stays_takeSnapshot fun _ _ h₁ =>
    within_bind (hR.stays_requireBalance _) fun _ _ h₂ =>
    have h := Trans.trans h₁ h₂
    within_opcodeCallPrecompileImpl (h.reason.trans hreason) (by rw [h.context, hcontext]) _

theorem within_opcodeDelegatecall :
    (Evm.opcodeDelegatecall B s).Within (Evm.Calls B R s.env.context.caller) s :=
  hR.within_call (fun self args => { self with codeAddress := some args.address })
    fun _ _ hreason hcontext => within_bind stays_takeSnapshot fun _ _ h =>
    within_opcodeCallPrecompileImpl (h.reason.trans hreason) (by rw [h.context, hcontext]) _

theorem within_opcodeStaticcall :
    (Evm.opcodeStaticcall B s).Within (Evm.Calls B R s.env.context.contract) s :=
  hR.within_call (fun self args =>
    { caller := self.contract, contract := args.address, value := 0
      codeAddress := some args.address }) fun _ _ hreason hcontext =>
    within_bind (moves_modify fun _ => ⟨⟨refl_of R _, List.prefix_rfl⟩, rfl, rfl⟩) fun _ _ h₁ =>
    within_bind stays_takeSnapshot fun _ _ h₂ =>
    have h := Trans.trans h₁ h₂
    within_opcodeCallPrecompileImpl (h.reason.trans hreason) (by rw [h.context, hcontext]) _

/-! ## Creations -/

omit [Platform] in
theorem stays_readCreate (offset length : ℕ) :
    Moves (Evm.Stays R) (Evm.readCreate B offset length) :=
  moves_bind moves_get fun _ => moves_bind (hR.stays_db (moves_nonce _)) fun _ =>
    moves_bind (moves_failIf _ _) fun _ =>
    moves_bind (hR.stays_push (.evmIncrementNonce _) rfl rfl) fun _ =>
    moves_bind (stays_onLocals _) fun _ => moves_bind (stays_onLocals _) fun _ => moves_pure _

omit [Platform] in
theorem keeps_openCreate (address : Address) (value : U256) (d : Context × Buffer) :
    Moves (Evm.Keeps R) (Evm.openCreate B address value d) :=
  moves_bind (keeps_of_stays (stays_emit _)) fun _ =>
    moves_bind (keeps_of_stays (hR.stays_db (moves_code _))) fun _ =>
    moves_bind (moves_failIf _ _) fun _ => moves_bind (keeps_fork _ _ _ _ _) fun _ =>
    moves_bind (keeps_of_stays stays_takeSnapshot) fun _ => moves_bind moves_get fun _ =>
    moves_bind (keeps_of_stays (hR.stays_db (moves_nonce _))) fun _ =>
    moves_bind (moves_failIf _ _) fun _ =>
    moves_bind (keeps_of_stays (hR.stays_db (moves_codeSize _))) fun _ =>
    moves_bind (moves_failIf _ _) fun _ =>
    moves_bind (keeps_of_stays (hR.stays_requireBalance _)) fun _ =>
    moves_bind (keeps_of_stays (hR.stays_push (.evmIncrementNonce _) rfl rfl)) fun _ =>
    moves_bind (keeps_of_stays (hR.stays_transfer _ _ _)) fun _ => moves_pure _

omit [Platform] in
/-- The two creations. -/
theorem keeps_create {args : EvmM Evm.CreateArgs} (hargs : Moves (Evm.Stays R) args) :
    Moves (Evm.Keeps R) (args >>= fun a =>
      Evm.opcodeCreateImpl B a.address a.value a.offset a.length) :=
  moves_bind (keeps_of_stays hargs) fun a => by
    rw [opcodeCreateImpl_eq]
    exact moves_bind (keeps_of_stays (hR.stays_readCreate _ _)) fun _ => hR.keeps_openCreate _ _ _

theorem stays_popCreate : Moves (Evm.Stays R) (Evm.popCreate B) :=
  moves_bind moves_get fun _ => moves_ite (fun _ => moves_fail _) fun _ =>
    moves_bind (stays_onLocals _) fun _ => moves_bind (stays_onLocals _) fun _ =>
    moves_bind (stays_onLocals _) fun _ => moves_bind (hR.stays_db (moves_nonce _)) fun _ =>
    moves_bind (stays_onLocals _) fun _ => moves_pure _

omit hR in
theorem stays_popCreate2 : Moves (Evm.Stays R) Evm.popCreate2 :=
  moves_bind moves_get fun _ => moves_ite (fun _ => moves_fail _) fun _ =>
    moves_bind (stays_onLocals _) fun _ => moves_bind (stays_onLocals _) fun _ =>
    moves_bind (stays_onLocals _) fun _ => moves_bind (stays_onLocals _) fun _ =>
    moves_bind (stays_onLocals _) fun _ => moves_pure _

end Rule

/-! ## The return of a constructor -/

/-- **What becomes of the journal** — the states are related, or a constructor stores its code and
is left. -/
def Appends (K : Evm → Evm → Prop) (s : Evm) (o : Outcome Panic Error Evm OpAction) : Prop :=
  o.Sat
    (fun a t => K s t ∨ s.Stores t ∧ (a.exit? ≠ none ∨ t.parents.length < s.parents.length))
    (fun _ t => K s t ∨ s.Stores t ∧ t.parents.length < s.parents.length) fun _ => True

theorem Appends.of_within {K : Evm → Evm → Prop} {o : Outcome Panic Error Evm OpAction}
    (h : o.Within K s) : Appends K s o :=
  Outcome.Sat.imp h (fun _ _ h => .inl h) (fun _ _ h => .inl h) fun _ h => h

theorem Appends.imp {K K' : Evm → Evm → Prop} {o : Outcome Panic Error Evm OpAction}
    (h : Appends K s o) (hK : ∀ t, K s t → K' s t) : Appends K' s o :=
  Outcome.Sat.imp h (fun _ t => Or.imp_left (hK t)) (fun _ t => Or.imp_left (hK t)) fun _ h => h

/-- Storing the code of a constructor. -/
theorem storeCode_run (contract : Address) (data : Buffer) (t : Evm) :
    (Evm.storeCode contract data t).Sat
      (fun _ u => u.parents = t.parents ∧ u.backend.stack = t.backend.stack ∧
        u.backend.cache = t.backend.cache ∧
        u.backend.actions = t.backend.actions ++ [.evmSetCode contract data])
      (fun _ u => u.backend.toDatabase = t.backend.toDatabase) fun _ => True := by
  unfold Evm.storeCode
  rw [bind_run]
  unfold Evm.fallible zoom
  rcases containerOf .create data () with ⟨container, _⟩ | ⟨e, _⟩ | p
  · rw [Outcome.ok_andThen, bind_run, db_run, setCode, bind_run]
    rcases h : decide (0x6000 < data.len)
    · exact ⟨rfl, rfl, rfl, rfl⟩
    · exact rfl
  · exact rfl
  · trivial

section

variable [Std.Refl R]

/-- On the locals, the chain stays. -/
theorem appends_onLocals {x : LocalM α} {f : α → EvmM OpAction} (ht : t.chain = s.chain)
    (hf : ∀ a u, u.chain = s.chain → Appends (Evm.Keeps R) s (f a u)) :
    Appends (Evm.Keeps R) s ((Evm.onLocals x >>= f) t) := by
  rw [bind_run]
  unfold Evm.onLocals zoom
  rcases x t.frame.locals with ⟨a, l⟩ | ⟨e, l⟩ | p
  · exact hf a _ ht
  · exact .inl (.of_eq (congrArg (·.backend.toDatabase) ht))
  · trivial

variable [IsTrans Database R]

/-- The return of a frame that `s` has worked up to. -/
theorem appends_opcodeReturnImpl (ht : t.chain = s.chain) (data : Buffer) :
    Appends (Evm.Keeps R) s (Evm.opcodeReturnImpl data t) := by
  have henv : t.env = s.env := congrArg (·.env) ht
  have hbackend : t.backend = s.backend := congrArg (·.backend) ht
  have hparents : t.parents = s.parents := congrArg (·.parents) ht
  by_cases hreason : t.env.reason = .create
  · unfold Evm.opcodeReturnImpl
    rw [bind_run, get_run, Outcome.ok_andThen]
    dsimp only
    rw [if_pos hreason, bind_run]
    have hstore := storeCode_run t.env.context.contract data t
    rcases h : Evm.storeCode t.env.context.contract data t with ⟨value, u⟩ | ⟨e, u⟩ | p
    · rw [h] at hstore
      obtain ⟨hups, hustack, hucache, hu⟩ := hstore
      rw [Outcome.ok_andThen, bind_run]
      unfold Evm.dbStack zoom
      rcases hcommit : commitSnapshot u.backend with ⟨_, b⟩ | ⟨e, b⟩ | p
      · obtain ⟨hstacked, hjournal, hcache⟩ := Ending.takeBack_ok (e := .commit) hcommit
        have hactions : b.actions = u.backend.actions := congrArg Journal.entries hjournal
        have stores {v : Evm} (hv : v.backend = b) : s.Stores v := by
          refine ⟨henv ▸ hreason, hbackend ▸ hustack ▸ hstacked, ?_, data, ?_⟩
          · rw [hv, hcache, hucache, hbackend]
          · rw [hv, hactions, hu, hbackend, henv]
        rw [Outcome.ok_andThen]
        refine (leave_run (u.setBackend b)).imp (fun a v hv => .inr ?_) (fun e v hv => .inr ?_)
          fun _ _ => trivial
        · rcases hv with ⟨-, rfl, rfl⟩ | ⟨p, hp, -, hv, -⟩
          · exact ⟨stores rfl, .inl nofun⟩
          · refine ⟨stores hv, .inr ?_⟩
            rw [← hparents, ← hups, show u.parents = p :: v.parents from hp]
            exact Nat.lt_succ_self _
        · obtain ⟨p, hp, -, hv⟩ := hv
          refine ⟨stores hv, ?_⟩
          rw [← hparents, ← hups, show u.parents = p :: v.parents from hp]
          exact Nat.lt_succ_self _
      · exact (Ending.takeBack_ne_err .commit _ _ _ hcommit).elim
      · trivial
    · rw [h] at hstore
      exact .inl (.of_eq (Eq.trans hstore (congrArg (·.toDatabase) hbackend)))
    · trivial
  · exact .of_within (Outcome.Within.trans
      (Evm.Keeps.of_eq (congrArg (·.toDatabase) hbackend)) (within_opcodeReturnImpl hreason data))

/-! ## Every opcode -/

/-- **An opcode keeps the rule**, or it calls an extension, or it stores the code of a constructor
at its end. -/
theorem Rule.appends_opcode [Platform] (hR : Rule B R P) (op : Opcode) :
    Appends (Evm.Acts B R) s (op.run B s) := by
  have keeps {o : Outcome Panic Error Evm OpAction} (h : Appends (Evm.Keeps R) s o) :
      Appends (Evm.Acts B R) s o := h.imp fun _ h => ⟨_, .inl rfl, .inl h⟩
  have calls {a : Address} {o : Outcome Panic Error Evm OpAction} (ha : s.Asks a)
      (h : o.Within (Evm.Calls B R a) s) : Appends (Evm.Acts B R) s o :=
    (Appends.of_within h).imp fun _ h => ⟨a, ha, h⟩
  have moves {x : EvmM OpAction} (h : Moves (Evm.Keeps R) x) : Appends (Evm.Acts B R) s (x s) :=
    keeps (.of_within (h s))
  cases op with
  | loc op => exact keeps (.of_within (keeps_of_stays (stays_onLocals _) s))
  | sys op =>
    cases op with
    | sload =>
      exact moves (keeps_of_stays (moves_bind (stays_onLocals _) fun _ =>
        moves_bind moves_get fun _ => moves_bind (hR.stays_db (moves_storage _ _)) fun _ =>
        moves_bind (stays_emit _) fun _ => moves_bind (stays_onLocals _) fun _ =>
        moves_pure _))
    | sstore =>
      exact moves (keeps_of_stays (moves_bind moves_get fun _ =>
        moves_ite (fun _ => moves_fail _) fun _ => moves_bind (stays_onLocals _) fun _ =>
        moves_bind (stays_onLocals _) fun _ => moves_bind (stays_emit _) fun _ =>
        moves_bind (hR.stays_push (.evmSetStorage _ _ _) rfl rfl) fun _ => moves_pure _))
    | create =>
      show Appends (Evm.Acts B R) s (Evm.opcodeCreate B s)
      rw [opcodeCreate_eq]
      exact moves (hR.keeps_create hR.stays_popCreate)
    | create2 =>
      show Appends (Evm.Acts B R) s (Evm.opcodeCreate2 B s)
      rw [opcodeCreate2_eq]
      exact moves (hR.keeps_create Rule.stays_popCreate2)
    | call => exact calls (.inl rfl) hR.within_opcodeCall
    | callcode => exact calls (.inl rfl) hR.within_opcodeCallcode
    | delegatecall => exact calls (.inr rfl) hR.within_opcodeDelegatecall
    | staticcall => exact calls (.inl rfl) hR.within_opcodeStaticcall
    | ret =>
      exact keeps (appends_onLocals rfl fun _ _ ht => appends_onLocals ht fun _ _ ht =>
        appends_onLocals ht fun _ _ ht => appends_opcodeReturnImpl ht _)
    | revert =>
      exact moves (moves_bind (keeps_of_stays (stays_onLocals _)) fun _ =>
        moves_bind (keeps_of_stays (stays_onLocals _)) fun _ =>
        moves_bind (keeps_of_stays (stays_onLocals _)) fun _ => hR.keeps_opcodeRevertImpl _)
    | stop => exact moves (keeps_leaveEmpty _ _)
    | selfdestruct =>
      exact moves (moves_bind moves_get fun _ => moves_ite (fun _ => moves_fail _) fun _ =>
        moves_bind (keeps_of_stays (stays_onLocals _)) fun _ =>
        moves_bind (keeps_of_stays (hR.stays_db (moves_balance _))) fun _ =>
        moves_bind (keeps_of_stays (hR.stays_transfer _ _ _)) fun _ =>
        moves_bind (keeps_of_stays (hR.stays_push (.evmSelfDestruct _) rfl rfl)) fun _ =>
        keeps_leaveEmpty _ _)
    | retf =>
      refine moves (moves_bind moves_get fun s => ?_)
      rcases s.frame.locals.returnStack with _ | ⟨ctx, rest⟩
      · exact moves_fail _
      · exact moves_bind (keeps_of_stays (stays_onLocals _)) fun _ =>
          moves_ite (fun _ => moves_pure _) fun _ => moves_pure _

end

end NeonEvm
