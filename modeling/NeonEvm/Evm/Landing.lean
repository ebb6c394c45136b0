import NeonEvm.Evm.Chain

/-!
# Evm/Landing — every opcode lands where its chain allows

    local opcodes   work
    RETURN STOP SELFDESTRUCT REVERT   the end of the frame
    CALL … CREATE2   a child is entered, or passed

An opcode is followed through its phases: it works, it is ready to open a child, it has entered one.
-/

namespace NeonEvm

open Exec ExecutorState Chain

variable {α β : Type} {B : AccountStorage} {P : List Action → Prop} {s t : Evm}

/-- `x` is work in the blocks `P`, and aborts only on a fault. -/
def Works (B : AccountStorage) (P : List Action → Prop) (x : EvmM α) : Prop := ∀ s : Evm,
  (x s).Sat (fun _ t => Work B s.chain t.chain P) (fun _ t => Work B s.chain t.chain P)
    fun p => ∃ f, p = .fault f

/-! ## What is work -/

theorem works_bind {x : EvmM α} {f : α → EvmM β} (hx : Works B P x) (hf : ∀ a, Works B P (f a)) :
    Works B P (x >>= f) := fun s =>
  (hx s).andThen fun a t ht => (hf a t).imp (fun _ _ h => ht.trans h) (fun _ _ h => ht.trans h)
    fun _ h => h

theorem works_pure (a : α) : Works B P (pure a) := fun s => Work.refl s.chain

theorem works_fail (e : Error) : Works B P (fail e : EvmM α) := fun s => Work.refl s.chain

theorem works_get : Works B P get := fun s => Work.refl s.chain

theorem works_failIf (b : Bool) (e : Error) : Works B P (failIf b e) := by
  cases b with
  | false => exact works_pure ()
  | true => exact works_fail e

theorem works_onLocals (x : LocalM α) : Works B P (Evm.onLocals x) := fun s => by
  unfold Evm.onLocals zoom
  cases x s.frame.locals with
  | ok a l => exact Work.refl s.chain
  | err e l => exact Work.refl s.chain
  | panic f => exact ⟨f, rfl⟩

theorem works_fallible (x : Fallible α) : Works B P (Evm.fallible x) := fun s => by
  unfold Evm.fallible zoom
  cases x () with
  | ok a l => exact Work.refl s.chain
  | err e l => exact Work.refl s.chain
  | panic f => exact ⟨f, rfl⟩

theorem works_emit (e : Event) : Works B P (Evm.emit e) := fun s => Work.refl s.chain

/-- Running on the database, read off. -/
theorem db_run (x : Db α) (s : Evm) :
    Evm.db x s = match x s.backend.toDatabase with
      | .ok a d => .ok a (s.setBackend (s.backend.setDatabase d))
      | .err e d => .err e (s.setBackend (s.backend.setDatabase d))
      | .panic f => .panic (.fault f) := by
  unfold Evm.db onDatabase zoom
  cases x s.backend.toDatabase <;> rfl

/-- Work on the database. -/
theorem works_db {x : Db α} (hx : Moves (Grows B P) x) : Works B P (Evm.db x) := fun s => by
  have h := hx s.backend.toDatabase
  rw [db_run]
  cases hxs : x s.backend.toDatabase with
  | ok a b =>
    rw [hxs] at h
    exact ⟨rfl, rfl, h, rfl⟩
  | err e b =>
    rw [hxs] at h
    exact ⟨rfl, rfl, h, rfl⟩
  | panic f => exact ⟨f, rfl⟩

theorem works_requireBalance (value : U256) : Works B P (Evm.requireBalance B value) :=
  works_bind works_get fun _ => works_bind (works_db (moves_balance _)) fun _ => works_failIf _ _

/-- The parent goes on where the child's snapshot has been taken back. -/
theorem leave_run {exit : OpAction} {status : ExitStatus} {returnData : Option Bytes}
    {delivery : Frame → LocalM Unit} (s : Evm) :
    (Evm.leave exit status returnData delivery s).Sat
      (fun a t => (s.parents = [] ∧ a = exit ∧ t = s) ∨
        ∃ p, s.parents = p :: t.parents ∧ t.env = p.env ∧ t.backend = s.backend ∧ a = .continue)
      (fun _ t => ∃ p, s.parents = p :: t.parents ∧ t.env = p.env ∧ t.backend = s.backend)
      fun p => ∃ f, p = .fault f := by
  unfold Evm.leave
  simp only [bind_run, get_run, Outcome.ok_andThen]
  cases hp : s.parents with
  | nil => exact .inl ⟨rfl, rfl, rfl⟩
  | cons p ps =>
    simp only [List.cons_ne_nil, if_false, bind_run, Evm.emitEnd, Evm.emit, modify_run,
      Outcome.ok_andThen, Evm.join, hp, Evm.onLocals, zoom]
    cases delivery s.frame p.locals with
    | ok a l => exact .inr ⟨p, rfl, rfl, rfl, rfl⟩
    | err e l => exact ⟨p, rfl, rfl, rfl⟩
    | panic f => exact ⟨f, rfl⟩

theorem LocalAction.exit?_toOpAction (a : LocalAction) : a.toOpAction.exit? = none := by
  cases a <;> rfl

/-- Reading code leaves the database as it is. -/
theorem ExecutorState.code_run (B : AccountStorage) (address : Address) (b : Database) :
    (code B address b).Sat (fun _ b' => b' = b) (fun _ _ => False) fun _ => True := by
  unfold code
  simp only [bind_run, gets_run, Outcome.ok_andThen]
  cases Overlay.code address b.actions with
  | some c => simp [Outcome.Sat]
  | none => cases h : B.code address <;> simp [Outcome.Sat, ofOption]

theorem db_code_run (address : Address) (t : Evm) :
    (Evm.db (code B address) t).Sat
      (fun c u => u.chain = t.chain ∧
        code B address t.backend.toDatabase = .ok c t.backend.toDatabase)
      (fun _ _ => False) fun p => ∃ f, p = .fault f := by
  have h := code_run B address t.backend.toDatabase
  rw [db_run]
  cases hc : code B address t.backend.toDatabase with
  | ok c b =>
    obtain rfl : b = t.backend.toDatabase := by simpa [hc, Outcome.Sat] using h
    exact ⟨rfl, rfl⟩
  | err e b => simp [hc, Outcome.Sat] at h
  | panic f => exact ⟨f, rfl⟩

/-- **A fork** fails without a trace. -/
theorem fork_run (reason : Reason) (context : Context) (executionCode callData : Buffer)
    (gasLimit : Option U256) (t : Evm) :
    (Evm.fork reason context executionCode callData gasLimit t).Sat
      (fun _ u => ∃ container, containerOf reason executionCode () = .ok container () ∧
        u.chain = ⟨{ t.env with
          context, executionCode, container, callData, reason
          gasLimit := gasLimit.getD t.env.gasLimit }, t.frame :: t.parents, t.backend⟩)
      (fun _ u => u = t)
      fun p => ∃ f, p = .fault f := by
  simp only [Evm.fork, bind_run, Evm.fallible, zoom]
  cases containerOf reason executionCode () with
  | ok container _ => exact ⟨container, rfl, rfl⟩
  | err e _ => rfl
  | panic f => exact ⟨f, rfl⟩

variable [Platform] {e : Ending} {O : CallEnv → Prop} {halts : Prop}

/-! ## Local opcodes -/

theorem lands_get {f : Evm → EvmM OpAction} (h : Lands B e O halts s (f t t)) :
    Lands B e O halts s ((get >>= f) t) := h

theorem lands_modify {g : Evm → Evm} {f : Unit → EvmM OpAction}
    (h : Lands B e O halts s (f () (g t))) : Lands B e O halts s ((modify g >>= f) t) := h

theorem lands_ite {c : Prop} [Decidable c] {x y : EvmM OpAction}
    (hx : c → Lands B e O halts s (x t)) (hy : ¬c → Lands B e O halts s (y t)) :
    Lands B e O halts s ((if c then x else y) t) := by
  split
  · exact hx ‹_›
  · exact hy ‹_›

theorem Chain.Work.lands_bind {x : EvmM α} {f : α → EvmM OpAction}
    (h : Work B s.chain t.chain (Block B s.env)) (hx : Works B (Block B s.env) x)
    (hf : ∀ a u, Work B s.chain u.chain (Block B s.env) → Lands B e O halts s (f a u)) :
    Lands B e O halts s ((x >>= f) t) :=
  Outcome.Sat.andThen
    ((hx t).imp (fun _ _ h' => h.trans h') (fun _ _ h' => .work (h.trans h')) fun _ h => .inl h) hf

theorem Chain.Work.lands_pure {a : OpAction} (h : Work B s.chain t.chain (Block B s.env))
    (ha : a.exit? = none) : Lands B e O halts s ((pure a : EvmM OpAction) t) := .inl ⟨ha, .work h⟩

theorem lands_local (op : LocalOp) (s : Evm) : Lands B e O halts s ((Opcode.loc op).run B s) := by
  unfold Opcode.run Evm.onLocals zoom
  simp only [bind_run]
  cases op ⟨B, s.env, s.backend.toDatabase⟩ s.frame.locals with
  | ok a l => exact .inl ⟨a.exit?_toOpAction, .work (.refl _)⟩
  | err e l => exact .work (.refl s.chain)
  | panic f => exact .inl ⟨f, rfl⟩

/-! ## Ends of frames -/

/-- Work before the end of the frame. -/
theorem Works.ends {x : EvmM α} {f : α → EvmM OpAction} (hx : Works B (Block B s.env) x)
    (hf : ∀ a t, t.env = s.env → Ends B e t (f a t)) : Ends B e s ((x >>= f) s) :=
  Outcome.Sat.andThen
    ((hx s).imp (fun _ _ h => h) (fun _ _ h => .inl h) fun _ h => .inl h)
    fun a t ht => Ends.of_work ht (hf a t ht.env)

/-- Reading the state is no phase of its own. -/
theorem ends_get {f : Evm → EvmM OpAction} (h : Ends B e s (f s s)) :
    Ends B e s ((get >>= f) s) := h

theorem ends_ite {c : Prop} [Decidable c] {x y : EvmM OpAction} (hx : c → Ends B e s (x s))
    (hy : ¬c → Ends B e s (y s)) : Ends B e s ((if c then x else y) s) := by
  split
  · exact hx ‹_›
  · exact hy ‹_›

/-- **Taking the snapshot back and leaving ends the frame.** -/
theorem ends_leave {exit : OpAction} (hexit : exit.exit? ≠ none) (status : ExitStatus)
    (returnData : Option Bytes) (delivery : Frame → LocalM Unit) (s : Evm) :
    Ends B e s ((Evm.dbStack e.takeBack >>= fun _ =>
      Evm.leave exit status returnData delivery) s) := by
  simp only [bind_run, Evm.dbStack, zoom]
  cases hb : e.takeBack s.backend with
  | err err b => exact (e.takeBack_ne_err _ _ _ hb).elim
  | panic p => exact .inr ⟨s.chain, .refl _, hb⟩
  | ok _ b =>
    have takeBack_eq {t : Evm} (ht : t.backend = b) : e.takeBack s.backend = .ok () t.backend :=
      ht ▸ hb
    refine (leave_run (s.setBackend b)).imp (fun a t h => ?_) (fun _ t h => ?_) fun _ h => .inl h
    · rcases h with ⟨hs, rfl, rfl⟩ | ⟨p, hs, ht, hbt, rfl⟩
      · exact .inr ⟨hexit, s.chain, .refl _, hb, hs, hs, rfl⟩
      · exact .inl ⟨rfl, s.chain, p, .refl _, takeBack_eq hbt, hs, ht⟩
    · obtain ⟨p, hs, ht, hbt⟩ := h
      exact .inr ⟨s.chain, p, .refl _, takeBack_eq hbt, hs, ht⟩

theorem ends_leaveEmpty {exit : OpAction} (hexit : exit.exit? ≠ none) (status : ExitStatus)
    (s : Evm) : Ends B .commit s (Evm.leaveEmpty exit status s) := ends_leave hexit _ _ _ s

theorem ends_opcodeRevertImpl (data : Buffer) (s : Evm) :
    Ends B .revert s (Evm.opcodeRevertImpl data s) := ends_leave (by simp [OpAction.exit?]) _ _ _ s

/-- **What a constructor returns is stored** before its snapshot is committed. -/
theorem works_storeCode {env : CallEnv} (hreason : env.reason = .create) (data : Buffer) :
    Works B (Block B env) (Evm.storeCode env.context.contract data) :=
  works_bind (works_fallible _) fun _ =>
    works_bind (works_db (moves_setCode fun hlen => .code data hreason hlen)) fun _ =>
      works_pure _

theorem ends_opcodeReturnImpl (data : Buffer) (s : Evm) :
    Ends B .commit s (Evm.opcodeReturnImpl data s) := by
  refine ends_get (ends_ite (fun hreason => ?_) fun _ => ?_)
  · refine Works.ends (works_storeCode hreason data) fun data t _ => ?_
    exact ends_leave (by simp [OpAction.exit?]) _ _ _ t
  · exact ends_leave (by simp [OpAction.exit?]) _ _ _ s

theorem ends_opcodeStop (s : Evm) : Ends B .commit s (Evm.opcodeStop s) :=
  ends_leaveEmpty (by simp [OpAction.exit?]) _ s

theorem ends_opcodeReturn (s : Evm) : Ends B .commit s (Evm.opcodeReturn s) :=
  Works.ends (works_onLocals _) fun _ _ _ => Works.ends (works_onLocals _) fun _ _ _ =>
    Works.ends (works_onLocals _) fun _ t _ => ends_opcodeReturnImpl _ t

theorem ends_opcodeRevert (s : Evm) : Ends B .revert s (Evm.opcodeRevert s) :=
  Works.ends (works_onLocals _) fun _ _ _ => Works.ends (works_onLocals _) fun _ _ _ =>
    Works.ends (works_onLocals _) fun _ t _ => ends_opcodeRevertImpl _ t

/-- **A contract that destroys itself** sends its balance first. -/
theorem ends_opcodeSelfdestruct (s : Evm) : Ends B .commit s (Evm.opcodeSelfdestruct B s) := by
  refine ends_get (ends_ite (fun _ => .inl (.refl _)) fun hstatic => ?_)
  have hstatic : s.env.isStatic = false := by simpa using hstatic
  refine Works.ends (works_onLocals _) fun address t ht => ?_
  refine Works.ends (works_db (moves_balance _)) fun value u hu => ?_
  have sent : Works B (Block B u.env) (Evm.db (transfer B s.env.context.contract address value)) :=
    works_db (moves_transfer fun hvalue hne => by
      simpa [hu, ht] using Block.sent address value hstatic hvalue hne)
  refine Works.ends sent fun _ v hv => ?_
  have destroyed : Works B (Block B v.env) (Evm.db (selfdestruct s.env.context.contract)) :=
    works_db (moves_pushAction (by simpa [hv, hu, ht] using Block.destroyed hstatic))
  exact Works.ends destroyed fun _ w _ => ends_leaveEmpty (by simp [OpAction.exit?]) _ w

/-! ## Storage -/

theorem lands_opcodeSload (s : Evm) : Lands B e O halts s (Evm.opcodeSload B s) :=
  (Work.refl s.chain).lands_bind (works_onLocals _) fun _ _ h =>
    h.lands_bind works_get fun _ _ h => h.lands_bind (works_db (moves_storage _ _)) fun _ _ h =>
      h.lands_bind (works_emit _) fun _ _ h => h.lands_bind (works_onLocals _) fun _ _ h =>
        h.lands_pure rfl

theorem lands_opcodeSstore (s : Evm) : Lands B e O halts s (Evm.opcodeSstore s) := by
  refine lands_get (lands_ite (fun _ => .work (.refl _)) fun hstatic => ?_)
  have hstatic : s.env.isStatic = false := by simpa using hstatic
  refine (Work.refl s.chain).lands_bind (works_onLocals _) fun index _ h =>
    h.lands_bind (works_onLocals _) fun value _ h => h.lands_bind (works_emit _) fun _ _ h => ?_
  have stored : Works B (Block B s.env) (Evm.db (setStorage s.env.context.contract index value)) :=
    works_db (moves_pushAction (.storage index value hstatic))
  exact h.lands_bind stored fun _ _ h => h.lands_pure rfl

/-! ## Opening a child -/

theorem Chain.Ready.lands_bind {r : Reason} {x : EvmM α} {f : α → EvmM OpAction}
    (h : Ready B s.chain t.chain r) (hx : Works B (fun _ => False) x)
    (hf : ∀ a u, Ready B s.chain u.chain r → Lands B e O halts s (f a u)) :
    Lands B e O halts s ((x >>= f) t) :=
  Outcome.Sat.andThen
    ((hx t).imp (fun _ _ h' => h.trans h') (fun _ _ h' => .work (h.trans h').work)
      fun _ h => .inl h) hf

theorem Chain.Enter.lands_bind {m : Chain} {frame : Frame} {child : CallEnv} {x : EvmM α}
    {f : α → EvmM OpAction} (h : Enter B s.chain t.chain O m frame child)
    (hx : Works B (Block B child) x)
    (hf : ∀ a u, Enter B s.chain u.chain O m frame child → Lands B e O halts s (f a u)) :
    Lands B e O halts s ((x >>= f) t) :=
  Outcome.Sat.andThen
    ((hx t).imp (fun _ _ h' => h.append h') (fun _ _ h' => .enter (h.append h')) fun _ h => .inl h)
    hf

theorem Chain.Enter.lands_failIf {m : Chain} {frame : Frame} {child : CallEnv} {b : Bool}
    {err : Error} {f : Unit → EvmM OpAction} (h : Enter B s.chain t.chain O m frame child)
    (hf : b = false → Lands B e O halts s (f () t)) :
    Lands B e O halts s ((failIf b err >>= f) t) := by
  cases b with
  | false => exact hf rfl
  | true => exact .enter h

theorem Chain.Enter.lands_pure {m : Chain} {frame : Frame} {child : CallEnv} {a : OpAction}
    (h : Enter B s.chain t.chain O m frame child) (ha : a.exit? = none) :
    Lands B e O halts s ((pure a : EvmM OpAction) t) := .inl ⟨ha, .enter h⟩

theorem Chain.Ready.sat_bind {Q : β → Evm → Prop} {r : Reason} {x : EvmM α} {f : α → EvmM β}
    (h : Ready B s.chain t.chain r) (hx : Works B (fun _ => False) x)
    (hf : ∀ a u, Ready B s.chain u.chain r →
      (f a u).Sat Q (fun _ v => Ready B s.chain v.chain r) fun p => ∃ f, p = .fault f) :
    ((x >>= f) t).Sat Q (fun _ v => Ready B s.chain v.chain r) fun p => ∃ f, p = .fault f :=
  Outcome.Sat.andThen
    ((hx t).imp (fun _ _ h' => h.trans h') (fun _ _ h' => h.trans h') fun _ h => h) hf

/-- **What the four calls share**: a child is forked off for the code that was read. -/
theorem forkCall_run {args : Evm.CallArgs} {context : Context}
    (haddress : context.codeAddress = some args.address)
    (hcontract : context.contract = args.address ∨ context.contract = s.env.context.contract)
    (h : Ready B s.chain t.chain .call) :
    (Evm.forkCall B args context t).Sat
      (fun _ u => u.env.context = context ∧ u.env.reason = .call ∧
        u.env.isStatic = s.env.isStatic ∧ ∃ m frame, Forked B s.chain u.chain m frame)
      (fun _ u => Ready B s.chain u.chain .call) fun p => ∃ f, p = .fault f := by
  refine h.sat_bind (works_onLocals _) fun _ _ h => h.sat_bind (works_onLocals _) fun callData t h =>
    (db_code_run args.address t).imp (fun _ _ h => h) (fun _ _ h => h.elim) (fun _ h => h)
      |>.andThen fun c u hu => ?_
  obtain ⟨hu, hc⟩ := hu
  rw [← hu] at h
  set v : Evm := { u with tracer := u.tracer.map (· ++ [.beginVM context c.toList]) }
  have hv : v.chain = t.chain := hu
  show ((Evm.fork .call context c callData (some args.gasLimit)) v).Sat _ _ _
  refine (fork_run _ _ _ _ _ v).imp (fun _ w hw => ?_) (fun _ w hw => hw ▸ h) fun _ h => h
  obtain ⟨container, hcontainer, hw⟩ := hw
  refine ⟨congrArg (·.env.context) hw, congrArg (·.env.reason) hw, ?_, v.chain, v.frame, ?_⟩
  · exact (congrArg (·.env.isStatic) hw).trans (congrArg (·.isStatic) h.work.env)
  · rw [hw]
    exact {
      ready := h
      frameEnv := h.work.env
      opens := {
        origin := congrArg (·.origin) h.work.env
        gasPrice := congrArg (·.gasPrice) h.work.env
        isStatic := fun hs => (congrArg (·.isStatic) h.work.env).trans hs
        container := hcontainer
        call := fun _ => ⟨args.address, haddress, hv ▸ hc, hcontract⟩
        create := fun h => by cases h }
      parents := rfl
      backend := rfl }

theorem Chain.Ready.lands_forkCall {args : Evm.CallArgs} {context : Context}
    {f : Unit → EvmM OpAction} (h : Ready B s.chain t.chain .call)
    (haddress : context.codeAddress = some args.address)
    (hcontract : context.contract = args.address ∨ context.contract = t.env.context.contract)
    (hf : ∀ u m frame, u.env.context = context → u.env.reason = .call →
      u.env.isStatic = s.env.isStatic → Forked B s.chain u.chain m frame →
      Lands B e O halts s (f () u)) :
    Lands B e O halts s ((Evm.forkCall B args context >>= f) t) := by
  have hself : t.env.context = s.env.context := congrArg (·.context) h.work.env
  refine Outcome.Sat.andThen ((forkCall_run haddress (hself ▸ hcontract) h).imp (fun _ _ h => h)
    (fun _ _ h => .work h.work) fun _ h => .inl h) fun _ u hu => ?_
  obtain ⟨hcontext, hreason, hstatic, m, frame, hfork⟩ := hu
  exact hf u m frame hcontext hreason hstatic hfork

/-- **The snapshot is taken as soon as the child is there.** -/
theorem Chain.Forked.lands_takeSnapshot {m : Chain} {frame : Frame} {f : Unit → EvmM OpAction}
    (h : Forked B s.chain t.chain m frame) (hO : O t.env)
    (hf : ∀ u, u.env = t.env → Enter B s.chain u.chain O m frame t.env →
      Lands B e O halts s (f () u)) :
    Lands B e O halts s ((Evm.takeSnapshot >>= f) t) := by
  refine hf (t.setBackend t.backend.snapshot) rfl ⟨h.ready, h.frameEnv, h.opens, hO, ?_⟩
  exact ⟨rfl, h.parents, h.backend ▸ .refl _, h.backend ▸ rfl⟩

/-- **A precompile or an extension is passed**; any other child goes on. -/
theorem Chain.Enter.lands_precompile {m : Chain} {frame : Frame} {child : CallEnv}
    (h : Enter B s.chain t.chain O m frame child) (address : Address) :
    Lands B .commit O halts s (Evm.opcodeCallPrecompileImpl B address t) := by
  have henv : t.env = child := h.work.env
  refine lands_get ?_
  cases precompile address t.env.callData.toList with
  | some x => exact h.lands_bind (works_fallible x) fun _ u h => h.pass (ends_opcodeReturnImpl _ u)
  | none =>
    cases hx : callPrecompileExtension B t.env.context address t.env.callData.toList
        t.env.isStatic with
    | none => exact h.lands_pure rfl
    | some x =>
      have hmoves : Moves (Grows B (Block B child)) x :=
        (moves_callPrecompileExtension hx).mono fun _ _ h' =>
          h'.mono fun _ h'' => .extension (henv ▸ h'')
      exact h.lands_bind (works_db hmoves) fun _ u h => h.pass (ends_opcodeReturnImpl _ u)

/-- The children of an opcode that may open any. -/
def anyChild : CallEnv → Prop := fun _ => True

/-- The children of `STATICCALL`. -/
def staticChild : CallEnv → Prop := fun env => env.isStatic = true ∧ env.reason = .call

theorem lands_opcodeCall (s : Evm) : Lands B .commit anyChild halts s (Evm.opcodeCall B s) := by
  refine (ready_refl s.chain).lands_bind (works_onLocals _) fun args t h => lands_get ?_
  refine h.lands_forkCall rfl (.inl rfl) fun u m frame hcontext _ _ hfork => ?_
  refine hfork.lands_takeSnapshot trivial fun v hv h => lands_get ?_
  refine h.lands_failIf fun hguard => h.lands_bind (works_requireBalance _) fun _ w h => ?_
  have received : Works B (Block B u.env)
      (Evm.db (transfer B v.env.context.caller v.env.context.contract args.value)) := by
    refine works_db (moves_transfer fun hvalue hne => ?_)
    have hstatic : u.env.isStatic = false := by
      by_contra hs
      exact of_decide_eq_false hguard ⟨by simpa [hv] using hs, hvalue⟩
    have hctx : v.env.context = u.env.context := congrArg (·.context) hv
    have hval : u.env.context.value = args.value := congrArg (·.value) hcontext
    rw [hctx] at hne ⊢
    exact hval ▸ Block.received hstatic (hval ▸ hvalue) hne
  exact h.lands_bind received fun _ _ h => h.lands_precompile _

theorem lands_opcodeCallcode (s : Evm) :
    Lands B .commit anyChild halts s (Evm.opcodeCallcode B s) := by
  refine (ready_refl s.chain).lands_bind (works_onLocals _) fun args t h => lands_get ?_
  refine h.lands_forkCall rfl (.inr rfl) fun u m frame _ _ _ hfork => ?_
  refine hfork.lands_takeSnapshot trivial fun v _ h => ?_
  exact h.lands_bind (works_requireBalance _) fun _ _ h => h.lands_precompile _

theorem lands_opcodeDelegatecall (s : Evm) :
    Lands B .commit anyChild halts s (Evm.opcodeDelegatecall B s) := by
  refine (ready_refl s.chain).lands_bind (works_onLocals _) fun args t h => lands_get ?_
  refine h.lands_forkCall rfl (.inr rfl) fun u m frame _ _ _ hfork => ?_
  exact hfork.lands_takeSnapshot trivial fun v _ h => h.lands_precompile _

/-- **`STATICCALL` opens static children only.** -/
theorem lands_opcodeStaticcall (s : Evm) :
    Lands B .commit staticChild halts s (Evm.opcodeStaticcall B s) := by
  refine (ready_refl s.chain).lands_bind (works_onLocals _) fun args t h => lands_get ?_
  refine h.lands_forkCall rfl (.inl rfl) fun u m frame _ hreason _ hfork => ?_
  have hstatic : Forked B s.chain (Evm.setStatic u).chain m frame := {
    hfork with
    opens := { hfork.opens with
      isStatic := fun _ => rfl
      create := fun h => nomatch hreason.symm.trans h } }
  refine lands_modify ?_
  exact hstatic.lands_takeSnapshot ⟨rfl, hreason⟩ fun v _ h => h.lands_precompile _

/-! ## Creation -/

/-- The creator's nonce is the one block before the child is opened. -/
theorem Chain.Ready.lands_incrementNonce {f : Unit → EvmM OpAction} {contract : Address}
    (h : Ready B s.chain t.chain .call) (hstatic : s.env.isStatic = false)
    (hself : contract = s.env.context.contract)
    (hf : ∀ u, Ready B s.chain u.chain .create → Lands B e O halts s (f () u)) :
    Lands B e O halts s ((Evm.db (incrementNonce contract) >>= f) t) := by
  have hactions : t.chain.backend.actions = s.chain.backend.actions :=
    h.actions.trans (List.append_nil _)
  have hwork : Work B t.chain
      (t.setBackend { t.backend with
        actions := t.backend.actions ++ [.evmIncrementNonce contract] }).chain
      (Block B s.env) :=
    ⟨rfl, rfl, moves_pushAction (hself ▸ .counted hstatic) t.backend.toDatabase, rfl⟩
  refine hf _ ⟨h.work.trans hwork, ?_⟩
  show t.chain.backend.actions ++ _ = s.chain.backend.actions ++ [.evmIncrementNonce _]
  rw [hactions, hself]
  rfl

theorem Chain.Ready.lands_forkCreate {context : Context} {initCode : Buffer}
    {f : Unit → EvmM OpAction} (h : Ready B s.chain t.chain .create)
    (hstatic : s.env.isStatic = false) (hcaller : context.caller = s.env.context.contract)
    (hcode : context.codeAddress = none)
    (hf : ∀ u m frame, u.env.context = context → u.env.reason = .create →
      u.env.isStatic = false → Forked B s.chain u.chain m frame → Lands B e O halts s (f () u)) :
    Lands B e O halts s ((Evm.fork .create context initCode .empty none >>= f) t) := by
  refine Outcome.Sat.andThen ((fork_run _ _ _ _ _ t).imp (fun _ _ h => h)
    (fun _ u hu => hu ▸ .work h.work) fun _ h => .inl h) fun _ u hu => ?_
  obtain ⟨container, hcontainer, hu⟩ := hu
  have hstatic' : t.env.isStatic = false := (congrArg (·.isStatic) h.work.env).trans hstatic
  refine hf u t.chain t.frame (congrArg (·.env.context) hu) (congrArg (·.env.reason) hu)
    ((congrArg (·.env.isStatic) hu).trans hstatic') ?_
  rw [hu]
  exact {
    ready := h
    frameEnv := h.work.env
    opens := {
      origin := congrArg (·.origin) h.work.env
      gasPrice := congrArg (·.gasPrice) h.work.env
      isStatic := fun hs => absurd (hs.symm.trans hstatic) (by simp)
      container := hcontainer
      call := fun h => by cases h
      create := fun _ => ⟨hstatic', hcaller, hcode⟩ }
    parents := rfl
    backend := rfl }

/-- **What the two creations share**: the creator's nonce counts it, whatever becomes of it. -/
theorem lands_opcodeCreateImpl (hstatic : s.env.isStatic = false)
    (h : Ready B s.chain t.chain .call) (address : Address) (value : U256) (offset length : ℕ) :
    Lands B .commit anyChild halts s (Evm.opcodeCreateImpl B address value offset length t) := by
  have hself : t.env.context = s.env.context := congrArg (·.context) h.work.env
  refine lands_get (h.lands_bind (works_db (moves_nonce _)) fun _ _ h =>
    h.lands_bind (works_failIf _ _) fun _ _ h => ?_)
  refine h.lands_incrementNonce hstatic (congrArg (·.contract) hself) fun _ h =>
    h.lands_bind (works_onLocals _) fun _ _ h => h.lands_bind (works_onLocals _) fun initCode _ h =>
    h.lands_bind (works_emit _) fun _ _ h => h.lands_bind (works_db (moves_code _)) fun _ _ h =>
    h.lands_bind (works_failIf _ _) fun _ _ h => ?_
  refine h.lands_forkCreate hstatic (congrArg (·.contract) hself) rfl
    fun u m frame hcontext hreason hstatic hfork => ?_
  refine hfork.lands_takeSnapshot trivial fun v hv h => lands_get ?_
  refine h.lands_bind (works_db (moves_nonce _)) fun _ _ h =>
    h.lands_bind (works_failIf _ _) fun _ _ h => h.lands_bind (works_db (moves_codeSize _))
    fun _ _ h => h.lands_bind (works_failIf _ _) fun _ _ h =>
    h.lands_bind (works_requireBalance _) fun _ _ h => ?_
  have hcontract : address = u.env.context.contract := congrArg (·.contract) hcontext.symm
  have hvalue : value = u.env.context.value := congrArg (·.value) hcontext.symm
  have hcaller : v.env.context.caller = u.env.context.caller := congrArg (·.context.caller) hv
  have counted : Works B (Block B u.env) (Evm.db (incrementNonce address)) :=
    works_db (moves_pushAction (hcontract ▸ .counted hstatic))
  have received : Works B (Block B u.env)
      (Evm.db (transfer B v.env.context.caller address value)) := by
    rw [hcaller, hcontract, hvalue]
    exact works_db (moves_transfer fun hvalue hne => .received hstatic hvalue hne)
  exact h.lands_bind counted fun _ _ h => h.lands_bind received fun _ _ h => h.lands_pure rfl

/-- The guard of the creations. -/
theorem lands_opcodeCreate (s : Evm) :
    Lands B .commit anyChild halts s (Evm.opcodeCreate B s) := by
  refine lands_get (lands_ite (fun _ => .work (.refl _)) fun hstatic => ?_)
  refine (ready_refl s.chain).lands_bind (works_onLocals _) fun _ _ h =>
    h.lands_bind (works_onLocals _) fun _ _ h => h.lands_bind (works_onLocals _) fun _ _ h =>
    h.lands_bind (works_db (moves_nonce _)) fun _ _ h =>
    h.lands_bind (works_onLocals _) fun _ _ h => ?_
  exact lands_opcodeCreateImpl (by simpa using hstatic) h _ _ _ _

theorem lands_opcodeCreate2 (s : Evm) :
    Lands B .commit anyChild halts s (Evm.opcodeCreate2 B s) := by
  refine lands_get (lands_ite (fun _ => .work (.refl _)) fun hstatic => ?_)
  refine (ready_refl s.chain).lands_bind (works_onLocals _) fun _ _ h =>
    h.lands_bind (works_onLocals _) fun _ _ h => h.lands_bind (works_onLocals _) fun _ _ h =>
    h.lands_bind (works_onLocals _) fun _ _ h => h.lands_bind (works_onLocals _) fun _ _ h => ?_
  exact lands_opcodeCreateImpl (by simpa using hstatic) h _ _ _ _

/-! ## Every opcode -/

/-- A return from the first function of a frame. -/
def returnsFromFirst (s : Evm) : Opcode → Bool
  | .sys .retf => s.frame.locals.returnStack.length = 1
  | _ => false

theorem lands_opcodeRetf (s : Evm) :
    Lands B e O (returnsFromFirst s (.sys .retf)) s (Evm.opcodeRetf s) := by
  refine lands_get ?_
  cases hstack : s.frame.locals.returnStack with
  | nil => exact .work (.refl _)
  | cons ctx rest =>
    refine (Work.refl s.chain).lands_bind (works_onLocals _) fun _ t h =>
      lands_ite (fun hrest => ?_) fun _ => h.lands_pure rfl
    exact .inr (.inr ⟨by simp [returnsFromFirst, hstack, hrest], rfl, h⟩)

/-- The snapshot is reverted by `REVERT` only. -/
def Opcode.ending : Opcode → Ending
  | .sys .revert => .revert
  | _ => .commit

/-- Which children an opcode opens. -/
def Opcode.children : Opcode → CallEnv → Prop
  | .sys .staticcall => staticChild
  | _ => anyChild

/-- **Every opcode lands.** -/
theorem lands_opcode (op : Opcode) (s : Evm) :
    Lands B op.ending op.children (returnsFromFirst s op) s (op.run B s) := by
  cases op with
  | loc op => exact lands_local op s
  | sys op =>
    cases op with
    | sload => exact lands_opcodeSload s
    | sstore => exact lands_opcodeSstore s
    | create => exact lands_opcodeCreate s
    | create2 => exact lands_opcodeCreate2 s
    | call => exact lands_opcodeCall s
    | callcode => exact lands_opcodeCallcode s
    | delegatecall => exact lands_opcodeDelegatecall s
    | staticcall => exact lands_opcodeStaticcall s
    | ret => exact (ends_opcodeReturn s).lands
    | revert => exact (ends_opcodeRevert s).lands
    | stop => exact (ends_opcodeStop s).lands
    | selfdestruct => exact (ends_opcodeSelfdestruct s).lands
    | retf => exact lands_opcodeRetf s

end NeonEvm
