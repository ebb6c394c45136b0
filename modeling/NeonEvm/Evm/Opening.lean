import NeonEvm.Evm.Delivery
import NeonEvm.Evm.Stages
import NeonEvm.Evm.Suspended

/-!
# Evm/Opening — a child is opened, and its end found in its caller

    call      pop · fork ──▸ child over the caller, or the caller behind a precompile
    creation  pop · count · fork · count the new account ──▸ child over the caller

The child of a call stands over its caller's locals as `callerSide` leaves them.  Whichever step
takes the child away, its caller goes on from one of the deliveries of that step.
-/

namespace NeonEvm

open Exec ExecutorState Chain Locals

section

variable {α : Type} {B : AccountStorage} {p : Frame} {ps : List Frame} {s t : Evm}
  {D : LocalM Unit → Prop} {Q : α → Evm → Prop} {E : Error → Evm → Prop}

/-! ## Opening a child -/

/-- What a call does on its caller's side before the child is there. -/
def callerSide (withValue : Bool) : LocalM Evm.CallArgs := do
  let args ← Evm.popCallArgs withValue
  modify fun l =>
    { l with
      returnData := .empty
      returnRange := ⟨args.returnOffset, wrappingAdd args.returnOffset args.returnLength⟩ }
  let _ ← readBuffer args.argsOffset args.argsLength
  pure args

theorem moves_popCallArgs {R : Locals → Locals → Prop} [IsTrans Locals R] [Std.Refl R]
    (hpop : Moves R popWord) (withValue : Bool) : Moves R (Evm.popCallArgs withValue) := by
  have husize : Moves R popUsize := moves_bind hpop fun _ => moves_lift _
  have haddress : Moves R popAddress := moves_bind hpop fun _ => moves_pure _
  refine moves_bind hpop fun gasLimit => moves_bind haddress fun address => ?_
  have rest (value : U256) : Moves R (do
      let argsOffset ← popUsize
      let argsLength ← popUsize
      let returnOffset ← popUsize
      let returnLength ← popUsize
      pure (⟨gasLimit, address, value, argsOffset, argsLength, returnOffset, returnLength⟩ :
        Evm.CallArgs)) :=
    moves_bind husize fun _ => moves_bind husize fun _ =>
      moves_bind husize fun _ => moves_bind husize fun _ => moves_pure _
  cases withValue with
  | true => exact moves_bind hpop rest
  | false => exact rest 0

theorem stays_popCallArgs {E : CallEnv} (withValue : Bool) :
    Moves (Stays E) (Evm.popCallArgs withValue) := moves_popCallArgs stays_popWord withValue

theorem stays_callerSide {env : CallEnv} (withValue : Bool) :
    Moves (Stays env) (callerSide withValue) :=
  moves_bind (stays_popCallArgs _) fun _ => moves_bind (moves_modify fun _ => ⟨rfl, id, fun _ => rfl⟩)
    fun _ => moves_bind (stays_readBuffer _ _) fun _ => moves_pure _

/-- The child of a call with the arguments `args` is open over its caller. -/
def OpenedBy (withValue : Bool) (s : Evm) (args : Evm.CallArgs) (t : Evm) : Prop :=
  ∃ l, callerSide withValue s.frame.locals = .ok args l ∧ ChildOf ⟨s.env, l⟩ s.parents .call t

/-- **A part of a call** comes to `Q`, or fails in its caller or in its child. -/
def ComesTo (withValue : Bool) (s : Evm) (Q : α → Evm → Prop) (o : Outcome Panic Error Evm α) : Prop :=
  o.Sat Q (fun _ t => AtHome s t ∨ ∃ args, OpenedBy withValue s args t) fun _ => True

/-- **Where a call leads**: a child over its caller, or past a child that has answered at once. -/
def Calls (withValue : Bool) (s : Evm) (o : Outcome Panic Error Evm OpAction) : Prop :=
  ComesTo withValue s
    (fun a t => ∃ args l, callerSide withValue s.frame.locals = .ok args l ∧
      (a = .noop ∧ ChildOf ⟨s.env, l⟩ s.parents .call t ∨
        ∃ env data l', env.reason = .call ∧ returnDelivery env data l = .ok () l' ∧
          a = .continue ∧ GoesOn ⟨s.env, l⟩ s.parents l' t))
    o

variable {withValue : Bool} {args : Evm.CallArgs} {l : Locals}

/-- The caller goes on in locals that have stayed. -/
theorem GoesOn.atHome {l' : Locals} (h : GoesOn ⟨s.env, l⟩ s.parents l' t)
    (hl : Stays s.env s.frame.locals l) (hl' : Stays s.env l l') : AtHome s t :=
  ⟨h.env, h.parents, h.locals ▸ Trans.trans hl hl'⟩

/-- What a move has returned, related to where it started. -/
theorem Moves.ok {R : Locals → Locals → Prop} {x : LocalM α} {a : α} {l l' : Locals}
    (hx : Moves R x) (h : x l = .ok a l') : R l l' := by
  have := hx l
  rwa [h] at this

theorem Moves.err {R : Locals → Locals → Prop} {x : LocalM α} {e : Error} {l l' : Locals}
    (hx : Moves R x) (h : x l = .err e l') : R l l' := by
  have := hx l
  rwa [h] at this

/-- A fork puts a child over the frame as it is, or fails without a trace. -/
theorem sat_fork {Q : Unit → Evm → Prop} {reason : Reason} {context : Context}
    {executionCode callData : Buffer} {gasLimit : Option U256}
    (hx : ∀ t, ChildOf s.frame s.parents reason t → t.env.context = context →
      t.backend = s.backend → Q () t)
    (he : ∀ e, E e s) :
    (Evm.fork reason context executionCode callData gasLimit s).Sat Q E fun _ => True := by
  simp only [Evm.fork, bind_run, Evm.fallible, zoom]
  cases containerOf reason executionCode () with
  | ok container _ => exact hx _ ⟨rfl, rfl, .refl _ _⟩ rfl rfl
  | err e _ => exact he e
  | panic f => trivial

/-- **What the four calls share**, up to the fork. -/
theorem forkCall_comesTo {context : Context} {f : Unit → EvmM α} {l₀ : Locals}
    (hargs : Evm.popCallArgs withValue s.frame.locals = .ok args l₀)
    (hf : ∀ u l, callerSide withValue s.frame.locals = .ok args l →
      ChildOf ⟨s.env, l⟩ s.parents .call u → ComesTo withValue s Q (f () u)) :
    ComesTo withValue s Q ((Evm.forkCall B args context >>= f) (s.setLocals l₀)) := by
  refine Outcome.Sat.andThen (Q := fun _ u => ∃ l, callerSide withValue s.frame.locals = .ok args l ∧
    ChildOf ⟨s.env, l⟩ s.parents .call u) ?_ fun _ u ⟨l, hl, hu⟩ => hf u l hl hu
  set l₁ : Locals :=
    { l₀ with
      returnData := .empty
      returnRange := ⟨args.returnOffset, wrappingAdd args.returnOffset args.returnLength⟩ }
  have hside {callData : Buffer} {l : Locals}
      (h : readBuffer args.argsOffset args.argsLength l₁ = .ok callData l) :
      callerSide withValue s.frame.locals = .ok args l := by
    rw [callerSide, bind_run, hargs, Outcome.ok_andThen, bind_run, modify_run, Outcome.ok_andThen,
      bind_run, h]
    rfl
  have hl₁ : Stays s.env s.frame.locals l₁ :=
    Trans.trans (Moves.ok (stays_popCallArgs (E := s.env) withValue) hargs)
      (⟨rfl, id, fun _ => rfl⟩ : Stays s.env l₀ l₁)
  change ((Evm.onLocals (readBuffer args.argsOffset args.argsLength) >>= _) (s.setLocals l₁)).Sat _ _ _
  refine Outcome.Sat.andThen (sat_onLocals (s := s.setLocals l₁)
    (x := readBuffer args.argsOffset args.argsLength)
    (Q := fun _ u => ∃ l, callerSide withValue s.frame.locals = .ok args l ∧
      u.frame = ⟨s.env, l⟩ ∧ u.parents = s.parents) (fun _ l h => ⟨l, hside h, rfl, rfl⟩)
    fun _ _ h => .inl ⟨rfl, rfl, Trans.trans hl₁
      (Moves.err (stays_readBuffer (E := s.env) _ _) h)⟩) fun callData u hu => ?_
  obtain ⟨l, hl, hframe, hps⟩ := hu
  have hhome {v : Evm} (hv : v.frame = ⟨s.env, l⟩) (hvs : v.parents = s.parents) : AtHome s v := by
    refine ⟨show v.frame.env = s.env by rw [hv], hvs, ?_⟩
    rw [hv]
    exact Moves.ok (stays_callerSide withValue) hl
  refine Outcome.Sat.andThen (sat_db (Q := fun _ u => u.frame = ⟨s.env, l⟩ ∧ u.parents = s.parents)
    (fun _ _ _ => ⟨hframe, hps⟩) fun _ _ => .inl (hhome hframe hps)) fun code u hu => ?_
  change (Evm.fork .call context code callData (some args.gasLimit)
    { u with tracer := u.tracer.map (· ++ [.beginVM context code.toList]) }).Sat _ _ _
  refine sat_fork (fun v hv _ _ => ⟨l, hl, ?_⟩) fun _ => .inl (hhome hu.1 hu.2)
  have hv : ChildOf u.frame u.parents .call v := hv
  rwa [hu.1, hu.2] at hv

/-- **A child at work** stays over its caller. -/
theorem ChildOf.comesTo_bind {β : Type} {x : EvmM β} {f : β → EvmM α}
    (ht : ChildOf ⟨s.env, l⟩ s.parents .call t)
    (hside : callerSide withValue s.frame.locals = .ok args l) (hx : StaysOpen t (x t))
    (hf : ∀ a u, ChildOf ⟨s.env, l⟩ s.parents .call u → ComesTo withValue s Q (f a u)) :
    ComesTo withValue s Q ((x >>= f) t) :=
  (hx.imp (fun _ _ h => h) (fun _ _ h => .inr ⟨args, l, hside, ht.stays h⟩) fun _ h => h).andThen
    fun a u hu => hf a u (ht.stays hu)

theorem comesTo_get {f : Evm → EvmM α} (h : ComesTo withValue s Q (f t t)) :
    ComesTo withValue s Q ((get >>= f) t) := h

theorem comesTo_modify {g : Evm → Evm} {f : Unit → EvmM α}
    (h : ComesTo withValue s Q (f () (g t))) : ComesTo withValue s Q ((modify g >>= f) t) := h

/-- **A child that has just been called** answers at once, or goes on. -/
theorem ChildOf.calls_precompile [Platform] (ht : ChildOf ⟨s.env, l⟩ s.parents .call t)
    (hside : callerSide withValue s.frame.locals = .ok args l) (address : Address) :
    Calls withValue s (Evm.opcodeCallPrecompileImpl B address t) := by
  have answer {u : Evm} {data : Buffer} (hu : ChildOf ⟨s.env, l⟩ s.parents .call u) :
      Calls withValue s (Evm.opcodeReturnImpl data u) := by
    refine (handsOver_opcodeReturnImpl hu.parents).imp (fun a v hv => ?_) (fun e v hv => ?_)
      fun _ h => h
    · obtain ⟨ha, x, l', rfl, hl', hv⟩ := hv
      exact ⟨args, l, hside, .inr ⟨u.env, data, l', hu.reason, hl', ha, hv⟩⟩
    · rcases hv with hv | ⟨x, l', rfl, hl', hv⟩
      · exact .inr ⟨args, l, hside, hu.stays hv⟩
      · exact .inl (hv.atHome (Moves.ok (stays_callerSide withValue) hside)
          (Moves.err stays_returnDelivery hl'))
  refine comesTo_get ?_
  cases precompile address t.env.callData.toList with
  | some x => exact ht.comesTo_bind hside (staysOpen_fallible x) fun _ _ hu => answer hu
  | none =>
    cases callPrecompileExtension B t.env.context address t.env.callData.toList t.env.isStatic with
    | some x => exact ht.comesTo_bind hside (staysOpen_db x) fun _ _ hu => answer hu
    | none => exact ⟨args, l, hside, .inl ⟨rfl, ht⟩⟩

/-- The words of a call are popped. -/
theorem comesTo_popCallArgs {f : Evm.CallArgs → EvmM α}
    (hf : ∀ args l, Evm.popCallArgs withValue s.frame.locals = .ok args l →
      ComesTo withValue s Q (f args (s.setLocals l))) :
    ComesTo withValue s Q ((Evm.onLocals (Evm.popCallArgs withValue) >>= f) s) := by
  refine Outcome.Sat.andThen (Q := fun args t => ∃ l,
    Evm.popCallArgs withValue s.frame.locals = .ok args l ∧ t = s.setLocals l) ?_ ?_
  · exact sat_onLocals (fun args l h => ⟨l, h, rfl⟩) fun _ _ h =>
      .inl ⟨rfl, rfl, Moves.err (stays_popCallArgs withValue) h⟩
  · rintro args t ⟨l, h, rfl⟩
    exact hf args l h

/-! ### The four calls, up to their precompile -/

theorem comesTo_openCall (s : Evm) : ComesTo true s (OpenedBy true s) (Evm.openCall B s) := by
  refine comesTo_popCallArgs fun args l₀ hargs => comesTo_get ?_
  refine forkCall_comesTo hargs fun u l hside hu => ?_
  refine hu.comesTo_bind hside staysOpen_takeSnapshot fun _ v hv => comesTo_get ?_
  exact hv.comesTo_bind hside (staysOpen_failIf _ _) fun _ _ h =>
    h.comesTo_bind hside (staysOpen_requireBalance _) fun _ _ h =>
    h.comesTo_bind hside (staysOpen_db _) fun _ _ h => ⟨l, hside, h⟩

theorem comesTo_openCallcode (s : Evm) :
    ComesTo true s (OpenedBy true s) (Evm.openCallcode B s) := by
  refine comesTo_popCallArgs fun args l₀ hargs => comesTo_get ?_
  refine forkCall_comesTo hargs fun u l hside hu => ?_
  exact hu.comesTo_bind hside staysOpen_takeSnapshot fun _ _ h =>
    h.comesTo_bind hside (staysOpen_requireBalance _) fun _ _ h => ⟨l, hside, h⟩

theorem comesTo_openDelegatecall (s : Evm) :
    ComesTo false s (OpenedBy false s) (Evm.openDelegatecall B s) := by
  refine comesTo_popCallArgs fun args l₀ hargs => comesTo_get ?_
  refine forkCall_comesTo hargs fun u l hside hu => ?_
  exact hu.comesTo_bind hside staysOpen_takeSnapshot fun _ _ h => ⟨l, hside, h⟩

theorem comesTo_openStaticcall (s : Evm) :
    ComesTo false s (OpenedBy false s) (Evm.openStaticcall B s) := by
  refine comesTo_popCallArgs fun args l₀ hargs => comesTo_get ?_
  refine forkCall_comesTo hargs fun u l hside hu => ?_
  have hstatic : ChildOf ⟨s.env, l⟩ s.parents .call (Evm.setStatic u) :=
    ⟨hu.parents, hu.reason, hu.locals.pc, hu.locals.memory, hu.locals.returnStack⟩
  refine comesTo_modify ?_
  exact hstatic.comesTo_bind hside staysOpen_takeSnapshot fun _ _ h => ⟨l, hside, h⟩

/-- The opcodes that call, and whether they pop a value. -/
def SysOp.callKind : SysOp → Option Bool
  | .call | .callcode => some true
  | .delegatecall | .staticcall => some false
  | _ => none

/-- **Every call opens a child** over its caller. -/
theorem comesTo_opening (B : AccountStorage) {op : SysOp} (h : op.callKind = some withValue) :
    ∃ y, Evm.opening B (.sys op) = some y ∧ ∀ s, ComesTo withValue s (OpenedBy withValue s) (y s) := by
  cases op with
  | call => cases h; exact ⟨_, rfl, comesTo_openCall⟩
  | callcode => cases h; exact ⟨_, rfl, comesTo_openCallcode⟩
  | delegatecall => cases h; exact ⟨_, rfl, comesTo_openDelegatecall⟩
  | staticcall => cases h; exact ⟨_, rfl, comesTo_openStaticcall⟩
  | _ => cases h

/-- The opcodes with an opening are the calls. -/
theorem callKind_of_opening {op : Opcode} {y : EvmM Evm.CallArgs}
    (h : Evm.opening B op = some y) : ∃ o withValue, op = .sys o ∧ o.callKind = some withValue := by
  match op, h with
  | .sys .call, _ => exact ⟨_, _, rfl, rfl⟩
  | .sys .callcode, _ => exact ⟨_, _, rfl, rfl⟩
  | .sys .delegatecall, _ => exact ⟨_, _, rfl, rfl⟩
  | .sys .staticcall, _ => exact ⟨_, _, rfl, rfl⟩

/-- **What a call has opened.** -/
theorem openedBy_of_opening {op : SysOp} {y : EvmM Evm.CallArgs} (hop : op.callKind = some withValue)
    (hy : Evm.opening B (.sys op) = some y) (h : y s = .ok args t) :
    OpenedBy withValue s args t := by
  obtain ⟨y', hy', hopens⟩ := comesTo_opening B hop
  obtain rfl : y' = y := Option.some.inj (hy'.symm.trans hy)
  have hs := hopens s
  rw [h] at hs
  exact hs

/-- **Every call** leads to a child over its caller, or past one that has answered. -/
theorem calls_opcode [Platform] (op : SysOp) (h : op.callKind = some withValue) (s : Evm) :
    Calls withValue s (op.run B s) := by
  obtain ⟨y, hy, hopens⟩ := comesTo_opening B h
  show Calls withValue s ((Opcode.sys op).run B s)
  rw [run_opening hy]
  exact Outcome.Sat.andThen (hopens s) fun args t ⟨l, hside, ht⟩ => ht.calls_precompile hside _

/-! ## Opening a constructor -/

/-- **Where a creation leads**: nowhere, or to a constructor over its caller; if it succeeds, the
new account is counted behind the journal `base` of the snapshot. -/
def Creates (s : Evm) (base : List Action) (o : Outcome Panic Error Evm OpAction) : Prop :=
  o.Sat
    (fun a t => a = .noop ∧ ∃ l, Stays s.env s.frame.locals l ∧
      ChildOf ⟨s.env, l⟩ s.parents .create t ∧
      base ++ [.evmIncrementNonce t.env.context.contract] <+: t.backend.actions)
    (fun _ t => AtHome s t ∨ ∃ l, Stays s.env s.frame.locals l ∧
      ChildOf ⟨s.env, l⟩ s.parents .create t) fun _ => True

/-- Before the fork of a creation. -/
structure Opening (s : Evm) (acts : List Action) (t : Evm) : Prop where
  home : AtHome s t
  actions : t.backend.actions = acts

/-- Behind the fork of a creation, before anything is appended. -/
structure Opened (s : Evm) (base : List Action) (address : Address) (t : Evm) : Prop where
  child : ∃ l, Stays s.env s.frame.locals l ∧ ChildOf ⟨s.env, l⟩ s.parents .create t
  contract : t.env.context.contract = address
  actions : t.backend.actions = base

variable {acts base : List Action} {address : Address}

/-- **A step that stays where it is**, and appends nothing. -/
def Quiet (B : AccountStorage) (x : EvmM α) : Prop :=
  Works B (fun _ => False) x ∧ ∀ t, StaysOpen t (x t)

theorem Quiet.sat {x : EvmM α} (hx : Quiet B x) (t : Evm) :
    (x t).Sat (fun _ u => AtHome t u ∧ u.backend.actions = t.backend.actions)
      (fun _ u => AtHome t u) fun _ => True := by
  have hworks := hx.1 t
  have hopen := hx.2 t
  cases hxt : x t with
  | ok a u =>
    rw [hxt] at hworks hopen
    have hwork : Work B t.chain u.chain fun _ => False := hworks
    exact ⟨hopen, hwork.actions_eq fun _ => id⟩
  | err e u =>
    rw [hxt] at hopen
    exact hopen
  | panic f => trivial

theorem quiet_db {x : Db α} (hx : Moves (Grows B fun _ => False) x) : Quiet B (Evm.db x) :=
  ⟨works_db hx, fun _ => staysOpen_db _⟩

theorem quiet_failIf (b : Bool) (e : Error) : Quiet B (failIf b e : EvmM Unit) :=
  ⟨works_failIf _ _, fun _ => staysOpen_failIf _ _⟩

theorem quiet_onLocals {x : LocalM α} (hx : ∀ env, Moves (Stays env) x) : Quiet B (Evm.onLocals x) :=
  ⟨works_onLocals _, fun _ => staysOpen_onLocals (hx _)⟩

theorem quiet_emit (e : Event) : Quiet B (Evm.emit e) := ⟨works_emit _, fun _ => staysOpen_emit _⟩

theorem quiet_requireBalance (value : U256) : Quiet B (Evm.requireBalance B value) :=
  ⟨works_requireBalance _, fun _ => staysOpen_requireBalance _⟩

theorem Opening.bind {x : EvmM α} {f : α → EvmM OpAction} (ht : Opening s acts t)
    (hx : Quiet B x) (hf : ∀ a u, Opening s acts u → Creates s base (f a u)) :
    Creates s base ((x >>= f) t) :=
  ((hx.sat t).imp (fun _ u h => (⟨ht.home.trans h.1, h.2.trans ht.actions⟩ : Opening s acts u))
    (fun _ _ h => .inl (ht.home.trans h)) fun _ h => h).andThen hf

theorem Opened.bind {x : EvmM α} {f : α → EvmM OpAction} (ht : Opened s base address t)
    (hx : Quiet B x) (hf : ∀ a u, Opened s base address u → Creates s base (f a u)) :
    Creates s base ((x >>= f) t) := by
  obtain ⟨l, hl, hchild⟩ := ht.child
  exact ((hx.sat t).imp (fun _ u h => (⟨⟨l, hl, hchild.stays h.1⟩, (congrArg (·.context.contract)
      h.1.env).trans ht.contract, h.2.trans ht.actions⟩ : Opened s base address u))
    (fun _ _ h => .inr ⟨l, hl, hchild.stays h⟩) fun _ h => h).andThen hf

theorem creates_get {f : Evm → EvmM OpAction} (h : Creates s base (f t t)) :
    Creates s base ((get >>= f) t) := h

/-- One action is pushed. -/
theorem db_pushAction_run (a : Action) (t : Evm) :
    Evm.db (pushAction a) t = .ok () (t.setBackend (t.backend.setDatabase
      { t.backend.toDatabase with actions := t.backend.actions ++ [a] })) := by
  rw [db_run]
  rfl

/-- The creation is counted in the creator's nonce. -/
theorem Opening.count {f : Unit → EvmM OpAction} (ht : Opening s acts t) (contract : Address)
    (hf : ∀ u, Opening s (acts ++ [.evmIncrementNonce contract]) u → Creates s base (f () u)) :
    Creates s base ((Evm.db (incrementNonce contract) >>= f) t) := by
  rw [bind_run, incrementNonce, db_pushAction_run]
  exact hf _ ⟨ht.home.trans ⟨rfl, rfl, .refl _ _⟩, congrArg (· ++ _) ht.actions⟩

theorem Opening.fork {context : Context} {initCode : Buffer} {f : Unit → EvmM OpAction}
    (ht : Opening s base t)
    (hf : ∀ u, Opened s base context.contract u → Creates s base (f () u)) :
    Creates s base ((Evm.fork .create context initCode .empty none >>= f) t) := by
  refine (sat_fork (Q := fun _ u => Opened s base context.contract u)
    (fun u hu hcontext hbackend => ?_) fun _ => .inl ht.home).andThen fun _ u hu => hf u hu
  have hframe : t.frame = ⟨s.env, t.frame.locals⟩ := by
    rw [← ht.home.env]
    rfl
  rw [hframe, ht.home.parents] at hu
  exact ⟨⟨t.frame.locals, ht.home.locals, hu⟩, congrArg (·.contract) hcontext,
    (congrArg (·.actions) hbackend).trans ht.actions⟩

theorem Opened.takeSnapshot {f : Unit → EvmM OpAction} (ht : Opened s base address t)
    (hf : ∀ u, Opened s base address u → Creates s base (f () u)) :
    Creates s base ((Evm.takeSnapshot >>= f) t) := by
  obtain ⟨l, hl, hchild⟩ := ht.child
  exact hf _ ⟨⟨l, hl, hchild.stays ⟨rfl, rfl, .refl _ _⟩⟩, ht.contract, ht.actions⟩

/-- **The new account is counted, and receives its value.** -/
theorem Opened.receives {caller : Address} {value : U256} (ht : Opened s base address t) :
    Creates s base ((do
      Evm.db (incrementNonce address)
      Evm.db (transfer B caller address value)
      pure .noop : EvmM OpAction) t) := by
  obtain ⟨l, hl, hchild⟩ := ht.child
  rw [bind_run, incrementNonce, db_pushAction_run, Outcome.ok_andThen]
  set u : Evm := t.setBackend (t.backend.setDatabase
    { t.backend.toDatabase with actions := t.backend.actions ++ [.evmIncrementNonce address] })
  have hu : ChildOf ⟨s.env, l⟩ s.parents .create u := hchild.stays ⟨rfl, rfl, .refl _ _⟩
  have received : Works B (fun _ => True) (Evm.db (transfer B caller address value)) :=
    works_db (moves_transfer fun _ _ => trivial)
  have hopen : StaysOpen u (Evm.db (transfer B caller address value) u) := staysOpen_db _
  have hworks := received u
  rw [bind_run]
  cases hx : Evm.db (transfer B caller address value) u with
  | ok a v =>
    rw [hx] at hopen hworks
    have hwork : Work B u.chain v.chain fun _ => True := hworks
    have hv : ChildOf ⟨s.env, l⟩ s.parents .create v := hu.stays hopen
    obtain ⟨more, -, hmore⟩ := hwork.grows.actions
    have hcontract : v.env.context.contract = address :=
      (congrArg (·.context.contract) hwork.env).trans ht.contract
    refine ⟨rfl, l, hl, hv, more, ?_⟩
    rw [hcontract, ← ht.actions]
    exact hmore.symm
  | err e v =>
    rw [hx] at hopen
    exact .inr ⟨l, hl, hu.stays hopen⟩
  | panic f => trivial

theorem creates_opcodeCreateImpl (ht : Opening s s.backend.actions t) (address : Address)
    (value : U256) (offset length : ℕ) :
    Creates s (s.backend.actions ++ [.evmIncrementNonce s.env.context.contract])
      (Evm.opcodeCreateImpl B address value offset length t) := by
  refine creates_get ?_
  have hself : t.env.context.contract = s.env.context.contract :=
    congrArg (·.context.contract) ht.home.env
  rw [hself]
  have forget : ∀ env, Moves (Stays env) (modify fun l : Locals =>
      { l with returnData := .empty, returnRange := ⟨0, 0⟩ } : LocalM Unit) := fun env =>
    moves_modify fun _ => ⟨rfl, id, fun _ => rfl⟩
  refine ht.bind (quiet_db (moves_nonce _)) fun _ _ ht => ht.bind (B := B) (quiet_failIf _ _) fun _ _ ht =>
    ht.count _ fun _ ht => ht.bind (B := B) (quiet_onLocals forget) fun _ _ ht =>
    ht.bind (B := B) (quiet_onLocals fun _ => stays_readBuffer _ _) fun _ _ ht =>
    ht.bind (B := B) (quiet_emit _) fun _ _ ht => ht.bind (quiet_db (moves_code _)) fun _ _ ht =>
    ht.bind (B := B) (quiet_failIf _ _) fun _ _ ht => ?_
  refine ht.fork fun _ ht => ht.takeSnapshot fun _ ht => creates_get ?_
  refine ht.bind (quiet_db (moves_nonce _)) fun _ _ ht => ht.bind (B := B) (quiet_failIf _ _) fun _ _ ht =>
    ht.bind (quiet_db (moves_codeSize _)) fun _ _ ht => ht.bind (B := B) (quiet_failIf _ _) fun _ _ ht =>
    ht.bind (quiet_requireBalance _) fun _ _ ht => ?_
  exact ht.receives

theorem creates_opcodeCreate [Platform] (s : Evm) :
    Creates s (s.backend.actions ++ [.evmIncrementNonce s.env.context.contract])
      (Evm.opcodeCreate B s) := by
  refine creates_get ?_
  have ht : Opening s s.backend.actions s := ⟨.refl s, rfl⟩
  by_cases hstatic : s.env.isStatic = true
  · rw [if_pos hstatic]
    exact .inl (.refl s)
  · rw [if_neg hstatic]
    exact ht.bind (B := B) (quiet_onLocals fun _ => stays_popWord) fun _ _ ht =>
      ht.bind (B := B) (quiet_onLocals fun _ => stays_popUsize) fun _ _ ht =>
      ht.bind (B := B) (quiet_onLocals fun _ => stays_popUsize) fun _ _ ht =>
      ht.bind (quiet_db (moves_nonce _)) fun _ _ ht =>
      ht.bind (B := B) (quiet_onLocals fun _ => stays_readMemory _ _) fun _ _ ht =>
      creates_opcodeCreateImpl ht _ _ _ _

theorem creates_opcodeCreate2 [Platform] (s : Evm) :
    Creates s (s.backend.actions ++ [.evmIncrementNonce s.env.context.contract])
      (Evm.opcodeCreate2 B s) := by
  refine creates_get ?_
  have ht : Opening s s.backend.actions s := ⟨.refl s, rfl⟩
  by_cases hstatic : s.env.isStatic = true
  · rw [if_pos hstatic]
    exact .inl (.refl s)
  · rw [if_neg hstatic]
    exact ht.bind (B := B) (quiet_onLocals fun _ => stays_popWord) fun _ _ ht =>
      ht.bind (B := B) (quiet_onLocals fun _ => stays_popUsize) fun _ _ ht =>
      ht.bind (B := B) (quiet_onLocals fun _ => stays_popUsize) fun _ _ ht =>
      ht.bind (B := B) (quiet_onLocals fun _ => stays_popWord) fun _ _ ht =>
      ht.bind (B := B) (quiet_onLocals fun _ => stays_readMemory _ _) fun _ _ ht =>
      creates_opcodeCreateImpl ht _ _ _ _

end

/-! ## One step of a session -/

section

variable [Platform] {B : AccountStorage} {p : Frame} {ps : List Frame} {x : Session} {s t : Evm}

/-- What an opcode may deliver when it ends its frame. -/
def Opcode.Delivers (s : Evm) : Opcode → LocalM Unit → Prop
  | .sys .stop, d | .sys .selfdestruct, d => d = emptyDelivery s.env
  | .sys .ret, d => ∃ data l, readResult s.frame.locals = .ok data l ∧ d = returnDelivery s.env data
  | .sys .revert, d =>
    ∃ data l, readResult s.frame.locals = .ok data l ∧ d = revertDelivery s.env data
  | _, _ => False

/-- What the next step may deliver when it ends its frame. -/
def Session.Delivers (x : Session) (d : LocalM Unit) : Prop :=
  match x.progress with
  | .running s => ∃ op, s.opcodeAt x.isEof = some op ∧ op.Delivers s d
  | .failed e s => d = revertDelivery s.env (.fromSlice e.revertMessage)
  | _ => False

/-- **An opcode keeps its frame open, or ends it in one of its deliveries.** -/
def StaysOrHands (s : Evm) (p : Frame) (ps : List Frame) (D : LocalM Unit → Prop)
    (o : Outcome Panic Error Evm OpAction) : Prop :=
  o.Sat
    (fun a t => s.parents <:+ t.parents ∨
      a = .continue ∧ ∃ x l, D x ∧ x p.locals = .ok () l ∧ GoesOn p ps l t)
    (fun e t => s.parents <:+ t.parents ∨ ∃ x l, D x ∧ x p.locals = .err e l ∧ GoesOn p ps l t)
    fun _ => True

variable {D : LocalM Unit → Prop} {o : Outcome Panic Error Evm OpAction}

omit [Platform] in
theorem HandsOver.staysOrHands (h : HandsOver s p ps D o) : StaysOrHands s p ps D o :=
  Outcome.Sat.imp h (fun _ _ h => .inr h)
    (fun _ t h => h.imp_left fun h : AtHome s t => h.parents ▸ List.suffix_refl s.parents)
    fun _ h => h

/-- The parents of `s` are there after `o`. -/
def KeepsParents (s : Evm) (o : Outcome Panic Error Evm OpAction) : Prop :=
  o.Sat (fun _ t => t.parents = s.parents) (fun _ t => t.parents = s.parents) fun _ => True

omit [Platform] in
theorem StaysOpen.keepsParents (h : StaysOpen s o) : KeepsParents s o :=
  Outcome.Sat.imp h (fun _ _ h => h.parents) (fun _ _ h => h.parents) fun _ h => h

omit [Platform] in
theorem KeepsParents.staysOrHands (h : KeepsParents s o) : StaysOrHands s p ps D o :=
  Outcome.Sat.imp h (fun _ _ h => .inl (h ▸ List.suffix_refl s.parents))
    (fun _ _ h => .inl (h ▸ List.suffix_refl s.parents)) fun _ h => h

omit [Platform] in
theorem Calls.staysOrHands {withValue : Bool} (h : Calls withValue s o) :
    StaysOrHands s p ps D o := by
  refine Outcome.Sat.imp h (fun a t ht => .inl ?_) (fun e t ht => .inl ?_) fun _ h => h
  · obtain ⟨args, l, -, ⟨-, hc⟩ | ⟨_, _, _, _, _, _, hg⟩⟩ := ht
    · exact hc.parents ▸ List.suffix_cons _ _
    · exact hg.parents ▸ List.suffix_refl s.parents
  · rcases ht with ht | ⟨args, l, -, hc⟩
    · exact ht.parents ▸ List.suffix_refl s.parents
    · exact hc.parents ▸ List.suffix_cons _ _

omit [Platform] in
theorem Creates.staysOrHands {base : List Action} (h : Creates s base o) :
    StaysOrHands s p ps D o := by
  refine Outcome.Sat.imp h (fun a t ht => .inl ?_) (fun e t ht => .inl ?_) fun _ h => h
  · obtain ⟨-, l, -, hc, -⟩ := ht
    exact hc.parents ▸ List.suffix_cons _ _
  · rcases ht with ht | ⟨l, -, hc⟩
    · exact ht.parents ▸ List.suffix_refl s.parents
    · exact hc.parents ▸ List.suffix_cons _ _

omit [Platform] in
theorem staysOpen_opcodeSload (s : Evm) : StaysOpen s (Evm.opcodeSload B s) :=
  (staysOpen_onLocals stays_popWord).bind fun _ t => (staysOpen_db (s := t) _).bind fun _ _ =>
    (staysOpen_emit _).bind fun _ _ => (staysOpen_onLocals (stays_pushWord _)).bind fun _ _ =>
    staysOpen_pure _

omit [Platform] in
theorem staysOpen_opcodeSstore (s : Evm) : StaysOpen s (Evm.opcodeSstore s) := by
  change StaysOpen s ((if s.env.isStatic = true then _ else _ : EvmM OpAction) s)
  by_cases h : s.env.isStatic = true
  · rw [if_pos h]
    exact .refl s
  · rw [if_neg h]
    exact (staysOpen_onLocals stays_popWord).bind fun _ _ =>
      (staysOpen_onLocals stays_popWord).bind fun _ _ => (staysOpen_emit _).bind fun _ _ =>
      (staysOpen_db _).bind fun _ _ => staysOpen_pure _

omit [Platform] in
theorem keepsParents_onLocals (x : LocalM OpAction) : KeepsParents s (Evm.onLocals x s) :=
  sat_onLocals (fun _ _ _ => rfl) fun _ _ _ => rfl

omit [Platform] in
theorem keepsParents_opcodeRetf (s : Evm) : KeepsParents s (Evm.opcodeRetf s) := by
  unfold Evm.opcodeRetf
  simp only [bind_run, get_run, Outcome.ok_andThen]
  cases s.frame.locals.returnStack with
  | nil => exact rfl
  | cons ctx rest =>
    refine Outcome.Sat.andThen (sat_onLocals (Q := fun _ t => t.parents = s.parents)
      (fun _ _ _ => rfl) fun _ _ _ => rfl) fun _ t ht => ?_
    by_cases h : rest = []
    · rw [if_pos h]
      exact ht
    · rw [if_neg h]
      exact ht

theorem staysOrHands_opcode (op : Opcode) (hs : s.parents = p :: ps) :
    StaysOrHands s p ps (op.Delivers s) (op.run B s) := by
  cases op with
  | loc op => exact (keepsParents_onLocals _).staysOrHands
  | sys op =>
    cases op with
    | sload => exact (staysOpen_opcodeSload s).keepsParents.staysOrHands
    | sstore => exact (staysOpen_opcodeSstore s).keepsParents.staysOrHands
    | create => exact (creates_opcodeCreate s).staysOrHands
    | create2 => exact (creates_opcodeCreate2 s).staysOrHands
    | call => exact (calls_opcode .call rfl s).staysOrHands
    | callcode => exact (calls_opcode .callcode rfl s).staysOrHands
    | delegatecall => exact (calls_opcode .delegatecall rfl s).staysOrHands
    | staticcall => exact (calls_opcode .staticcall rfl s).staysOrHands
    | ret => exact (handsOver_opcodeReturn hs).staysOrHands
    | revert => exact (handsOver_opcodeRevert hs).staysOrHands
    | stop => exact (handsOver_opcodeStop hs).staysOrHands
    | selfdestruct => exact (handsOver_opcodeSelfdestruct hs).staysOrHands
    | retf => exact (keepsParents_opcodeRetf s).staysOrHands

omit [Platform] in
/-- What a turn makes of an opcode that goes on. -/
theorem conclude_continue {l : Locals} (ht : GoesOn p ps l t) :
    ∃ u, Evm.conclude .continue t = .running u ∧ GoesOn p ps { l with pc := l.pc + 1 } u := by
  have hl := ht.locals
  subst hl
  exact ⟨_, rfl, ht.parents, ht.env, rfl⟩

omit [Platform] in
/-- A turn whose opcode has returned, if the frame is gone. -/
theorem StaysOrHands.concluded {a : OpAction} {u : Evm} (h : StaysOrHands s p ps D (.ok a u))
    (ht : (Evm.conclude a u).current = some t) (hleft : t.parents.length < s.parents.length) :
    ∃ d l, D d ∧ d p.locals = .ok () l ∧ Evm.conclude a u = .running t ∧
      GoesOn p ps { l with pc := l.pc + 1 } t := by
  rcases h with h | ⟨rfl, d, l, hd, hdl, hg⟩
  · have hparents : t.parents = u.parents :=
      congrArg Chain.parents (Evm.conclude_chain (Progress.state_of_current ht))
    rw [hparents] at hleft
    exact absurd h.length_le (not_le.2 hleft)
  · obtain ⟨v, hv, hgv⟩ := conclude_continue hg
    obtain rfl : v = t := by
      rw [hv] at ht
      exact Option.some.inj ht
    exact ⟨d, l, hd, hdl, hv, hgv⟩

/-- **The end of a frame hands its caller a delivery** — the caller goes on behind its opcode, or
fails in the delivery. -/
theorem Session.handed (hs : x.progress.current = some s) (hps : s.parents = p :: ps)
    (ht : (x.after B .next).progress.current = some t)
    (hleft : t.parents.length < s.parents.length) :
    ∃ d l, x.Delivers d ∧
      ((d p.locals = .ok () l ∧ (x.after B .next).progress = .running t ∧
          GoesOn p ps { l with pc := l.pc + 1 } t) ∨
        ∃ e, d p.locals = .err e l ∧ (x.after B .next).progress = .failed e t ∧
          GoesOn p ps l t) := by
  obtain ⟨isEof, pr⟩ := x
  cases pr with
  | running r =>
    obtain rfl : r = s := Option.some.inj hs
    have hafter : (Session.after B ⟨isEof, .running r⟩ .next).progress =
      micro B isEof (.running r) := rfl
    rw [hafter] at ht ⊢
    rcases Evm.runOpcode_run B isEof r with ⟨-, f, hf⟩ | ⟨op, tracer, hop, hrun⟩
    · simp [micro, hf, Progress.current] at ht
    · have h : StaysOrHands r p ps (op.Delivers r) (op.run B { r with tracer := tracer }) :=
        staysOrHands_opcode (B := B) op (s := { r with tracer := tracer }) hps
      cases ho : op.run B { r with tracer := tracer } with
      | ok a u =>
        have hm : micro B isEof (.running r) = Evm.conclude a u := by simp [micro, hrun, ho]
        rw [ho] at h
        rw [hm] at ht ⊢
        obtain ⟨d, l, hd, hdl, hv, hg⟩ := h.concluded ht hleft
        exact ⟨d, l, ⟨op, hop, hd⟩, .inl ⟨hdl, hv, hg⟩⟩
      | err e u =>
        have hm : micro B isEof (.running r) = .failed e u := by simp [micro, hrun, ho]
        rw [ho] at h
        rw [hm] at ht ⊢
        obtain rfl : u = t := Option.some.inj ht
        rcases h with h | ⟨d, l, hd, hdl, hg⟩
        · exact absurd h.length_le (not_le.2 hleft)
        · exact ⟨d, l, ⟨op, hop, hd⟩, .inr ⟨e, hdl, rfl, hg⟩⟩
      | panic f => simp [micro, hrun, ho, Progress.current] at ht
  | failed err r =>
    obtain rfl : r = s := Option.some.inj hs
    have hafter : (Session.after B ⟨isEof, .failed err r⟩ .next).progress =
      micro B isEof (.failed err r) := rfl
    rw [hafter] at ht ⊢
    have h : StaysOrHands r p ps (· = revertDelivery r.env (.fromSlice err.revertMessage))
      (Evm.handleError err r) := (handsOver_opcodeRevertImpl hps).staysOrHands
    cases ho : Evm.handleError err r with
    | ok a u =>
      have hm : micro B isEof (.failed err r) = Evm.conclude a u := by simp [micro, ho]
      rw [ho] at h
      rw [hm] at ht ⊢
      obtain ⟨d, l, hd, hdl, hv, hg⟩ := h.concluded ht hleft
      exact ⟨d, l, hd, .inl ⟨hdl, hv, hg⟩⟩
    | err e u => simp [micro, ho, Progress.current] at ht
    | panic f => simp [micro, ho, Progress.current] at ht
  | _ => cases hs

/-- **The handler of errors leaves its frame.** -/
theorem micro_failed_length (isEof : Bool) (err : Error)
    (ht : (micro B isEof (.failed err s)).current = some t) :
    t.parents.length < s.parents.length := by
  have h : Ends B .revert s (Evm.handleError err s) := ends_opcodeRevertImpl _ s
  unfold micro at ht
  dsimp only at ht
  cases ho : Evm.handleError err s with
  | ok a u =>
    rw [ho] at h ht
    have hchain : t.chain = u.chain := Evm.conclude_chain (Progress.state_of_current ht)
    rcases h with ⟨-, m, p, hl⟩ | ⟨ha, m, hx⟩
    · have hlen : s.parents.length = u.parents.length + 1 := hl.length
      rw [show t.parents = u.parents from congrArg Chain.parents hchain, hlen]
      exact Nat.lt_succ_self _
    · unfold Evm.conclude at ht
      cases hexit : a.exit? with
      | none => exact absurd hexit ha
      | some status => simp [hexit, Progress.current] at ht
  | err e u =>
    rw [ho] at ht
    cases ht
  | panic p =>
    rw [ho] at ht
    cases ht

/-! ## Which delivery it is -/

/-- `STOP` and `SELFDESTRUCT`. -/
def Opcode.leavesEmpty : Opcode → Bool
  | .sys .stop | .sys .selfdestruct => true
  | _ => false

/-- The next opcode is `STOP` or `SELFDESTRUCT`. -/
def Session.stops (x : Session) : Bool :=
  match x.progress with
  | .running s => (s.opcodeAt x.isEof).any Opcode.leavesEmpty
  | _ => false

/-- What the next step hands on, if it ends its frame. -/
def Session.result (x : Session) : Bytes :=
  match x.progress with
  | .running s =>
    if x.stops then []
    else match readResult s.frame.locals with
      | .ok data _ => data.toList
      | _ => []
  | .failed e _ => e.revertMessage
  | _ => []

/-- **The three deliveries**, told apart by what comes next. -/
theorem Session.Delivers.cases {d : LocalM Unit} (h : x.Delivers d)
    (hs : x.progress.current = some s) :
    (x.fails = true ∧ x.stops = false ∧
      ∃ data : Buffer, data.toList = x.result ∧ d = revertDelivery s.env data) ∨
    (x.fails = false ∧ x.stops = true ∧ x.result = [] ∧ d = emptyDelivery s.env) ∨
    (x.fails = false ∧ x.stops = false ∧
      ∃ data : Buffer, data.toList = x.result ∧ d = returnDelivery s.env data) := by
  obtain ⟨isEof, p⟩ := x
  cases p with
  | running r =>
    obtain rfl : r = s := Option.some.inj hs
    obtain ⟨op, hop, hd⟩ := h
    have hfails : Session.fails ⟨isEof, .running r⟩ = decide (op.ending = .revert) := by
      simp [Session.fails, hop]
    have hstops : Session.stops ⟨isEof, .running r⟩ = op.leavesEmpty := by
      simp [Session.stops, hop]
    have hresult : Session.result ⟨isEof, .running r⟩ = if op.leavesEmpty then []
        else match readResult r.frame.locals with
          | .ok data _ => data.toList
          | _ => [] := by
      unfold Session.result
      rw [← hstops]
    rw [hfails, hstops, hresult]
    match op, hd with
    | .sys .stop, hd => exact .inr (.inl ⟨rfl, rfl, rfl, hd⟩)
    | .sys .selfdestruct, hd => exact .inr (.inl ⟨rfl, rfl, rfl, hd⟩)
    | .sys .ret, ⟨data, l, hread, hd⟩ =>
      exact .inr (.inr ⟨rfl, rfl, data, by rw [hread]; rfl, hd⟩)
    | .sys .revert, ⟨data, l, hread, hd⟩ => exact .inl ⟨rfl, rfl, data, by rw [hread]; rfl, hd⟩
  | failed e r =>
    obtain rfl : r = s := Option.some.inj hs
    exact .inl ⟨rfl, rfl, _, Buffer.toList_fromSlice _, h⟩
  | _ => cases hs

end

end NeonEvm
