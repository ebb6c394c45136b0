import NeonEvm.Evm.Execute
import NeonEvm.Executor.Grows

/-!
# Evm/Chain — the frames over the journal, apart from what happens inside them

    work    append blocks of the current frame
    enter   open a child over a snapshot · work
    leave   work · take the snapshot back · go on in the parent
    pass    enter · leave                                (a precompile)
    exit    work · take the snapshot back                (the first frame)

A `Chain` forgets the locals of the current frame.  Where an opcode may take a machine is said on
chains (`Lands`); the opcodes are shown to obey it in `Evm/Landing`.
-/

namespace NeonEvm

open Exec ExecutorState

/-- A call chain: the environment of the current frame, its parents, and the database. -/
structure Chain where
  env : CallEnv
  parents : List Frame
  backend : ExecutorState

/-- The call chain of a machine. -/
def Evm.chain (s : Evm) : Chain := ⟨s.env, s.parents, s.backend⟩

@[simp] theorem Evm.chain_env (s : Evm) : s.chain.env = s.env := rfl

@[simp] theorem Evm.chain_parents (s : Evm) : s.chain.parents = s.parents := rfl

@[simp] theorem Evm.chain_backend (s : Evm) : s.chain.backend = s.backend := rfl

@[simp] theorem Evm.chain_setLocals (s : Evm) (l : Locals) : (s.setLocals l).chain = s.chain := rfl

/-! ## Work -/

namespace Chain

/-- The current frame works: the journal grows by blocks in `P`. -/
structure Work (B : AccountStorage) (c d : Chain) (P : List Action → Prop) : Prop where
  env : d.env = c.env
  parents : d.parents = c.parents
  grows : Grows B P c.backend.toDatabase d.backend.toDatabase
  stack : d.backend.stack = c.backend.stack

variable {B : AccountStorage} {c d u : Chain} {P Q : List Action → Prop}

theorem Work.refl (c : Chain) : Work B c c P := ⟨rfl, rfl, Grows.refl _, rfl⟩

theorem Work.of_eq (h : c = d) : Work B c d P := h ▸ Work.refl c

theorem Work.trans (h : Work B c u P) (h' : Work B u d P) : Work B c d P :=
  ⟨h'.env.trans h.env, h'.parents.trans h.parents, h.grows.trans h'.grows, h'.stack.trans h.stack⟩

theorem Work.mono (h : Work B c d P) (hPQ : ∀ acts, P acts → Q acts) : Work B c d Q :=
  { h with grows := h.grows.mono hPQ }

end Chain

/-! ## What a frame appends -/

section

variable [Platform] (B : AccountStorage)

/-- **What the opcodes of a frame append**, one block at a time; all but the constructor's code is
refused in a static call. -/
inductive Block (env : CallEnv) : List Action → Prop
  | storage (index value : U256) (h : env.isStatic = false) :
    Block env [.evmSetStorage env.context.contract index value]
  | counted (h : env.isStatic = false) :
    Block env [.evmIncrementNonce env.context.contract]
  | received (h : env.isStatic = false) (hvalue : env.context.value ≠ 0)
      (hne : env.context.caller ≠ env.context.contract) :
    Block env [.neonTransfer env.context.caller env.context.contract env.context.value]
  | sent (target : Address) (value : U256) (h : env.isStatic = false) (hvalue : value ≠ 0)
      (hne : env.context.contract ≠ target) :
    Block env [.neonTransfer env.context.contract target value]
  | destroyed (h : env.isStatic = false) : Block env [.evmSelfDestruct env.context.contract]
  | code (code : Buffer) (hreason : env.reason = .create) (hlen : code.len ≤ 0x6000) :
    Block env [.evmSetCode env.context.contract code]
  | extension {acts : List Action} (h : Unguarded B env.context env.isStatic acts) : Block env acts

/-- **A static call appends nothing.** -/
theorem not_block {B : AccountStorage} {env : CallEnv} (hstatic : env.isStatic = true)
    (hreason : env.reason = .call) (acts : List Action) : ¬Block B env acts := by
  intro h
  cases h with
  | code => simp_all
  | extension h => exact absurd h.1 (by simp [hstatic])
  | _ => simp_all

/-! ## Moves of a chain -/

namespace Chain

variable (c d : Chain)

/-- What a frame appends before it opens a child: a creation counts in the creator's nonce. -/
def opening (env : CallEnv) : Reason → List Action
  | .call => []
  | .create => [.evmIncrementNonce env.context.contract]

/-- The current frame is ready to open a child. -/
structure Ready (r : Reason) : Prop where
  work : Work B c d (Block B c.env)
  actions : d.backend.actions = c.backend.actions ++ opening c.env r

/-- **The child that a frame opens** over the database `b`: what it inherits, and where its code
comes from. -/
structure Opens (b : Database) (parent child : CallEnv) : Prop where
  origin : child.origin = parent.origin
  gasPrice : child.gasPrice = parent.gasPrice
  isStatic : parent.isStatic = true → child.isStatic = true
  container : containerOf child.reason child.executionCode () = .ok child.container ()
  call : child.reason = .call → ∃ address, child.context.codeAddress = some address ∧
    code B address b = .ok child.executionCode b ∧
      (child.context.contract = address ∨ child.context.contract = parent.context.contract)
  create : child.reason = .create → child.isStatic = false ∧
    child.context.caller = parent.context.contract ∧ child.context.codeAddress = none

/-- A child has been forked off, its snapshot not yet taken. -/
structure Forked (m : Chain) (frame : Frame) : Prop where
  ready : Ready B c m d.env.reason
  frameEnv : frame.env = c.env
  opens : Opens B m.backend.toDatabase c.env d.env
  parents : d.parents = frame :: m.parents
  backend : d.backend = m.backend

/-- A child of the kind `O` is entered over a snapshot of `m`, and works. -/
structure Enter (O : CallEnv → Prop) (m : Chain) (frame : Frame) (child : CallEnv) : Prop where
  ready : Ready B c m child.reason
  frameEnv : frame.env = c.env
  opens : Opens B m.backend.toDatabase c.env child
  kind : O child
  work : Work B ⟨child, frame :: m.parents, m.backend.snapshot⟩ d (Block B child)

end Chain

end

/-- How a snapshot is taken back. -/
inductive Ending where
  | commit
  | revert
  deriving DecidableEq

/-- `commit_snapshot` or `revert_snapshot`. -/
def Ending.takeBack : Ending → Exec Panic Error ExecutorState Unit
  | commit => commitSnapshot
  | revert => revertSnapshot

/-- What that does to the journal. -/
def Ending.act : Ending → Journal Action → Journal Action
  | commit => Journal.commit
  | revert => Journal.revert

/-- **Taking a snapshot back** commits or reverts the journal, and touches nothing else; it aborts
where there is no snapshot, or where reverting the last one would leave more than the nonce. -/
theorem Ending.takeBack_run (e : Ending) (b : ExecutorState) :
    (e.takeBack b).Sat
      (fun _ b' => b.stack ≠ [] ∧ b'.journal = e.act b.journal ∧ b'.cache = b.cache)
      (fun _ _ => False)
      fun _ => b.stack = [] ∨
        ∃ m, b.stack = [m] ∧ e = .revert ∧ isNonceOnly (b.actions.take m) = false := by
  cases hb : b.stack with
  | nil => cases e <;> simp [takeBack, commitSnapshot, revertSnapshot, hb, Outcome.Sat]
  | cons m ms =>
    cases e with
    | commit =>
      simp [takeBack, commitSnapshot, hb, Outcome.Sat, act, journal, Journal.commit]
    | revert =>
      simp only [takeBack, revertSnapshot, hb]
      split
      · next h => exact .inr ⟨m, by simpa using h⟩
      · simp [Outcome.Sat, act, journal, Journal.revert, hb]

/-- Taking a snapshot back, where it succeeds. -/
theorem Ending.takeBack_ok {e : Ending} {b b' : ExecutorState} {a : Unit}
    (h : e.takeBack b = .ok a b') :
    b.stack ≠ [] ∧ b'.journal = e.act b.journal ∧ b'.cache = b.cache := by
  simpa [h, Outcome.Sat] using e.takeBack_run b

theorem Ending.takeBack_ne_err (e : Ending) (b b' : ExecutorState) (err : Error) :
    e.takeBack b ≠ .err err b' := fun h => by
  simpa [h, Outcome.Sat] using e.takeBack_run b

section

variable [Platform] (B : AccountStorage)

namespace Chain

variable (e : Ending) (c d : Chain)

/-- The snapshot of the current frame is taken back, and its parent goes on. -/
structure Leave (m : Chain) (parent : Frame) : Prop where
  work : Work B c m (Block B c.env)
  takeBack : e.takeBack m.backend = .ok () d.backend
  parents : m.parents = parent :: d.parents
  env : d.env = parent.env

/-- The snapshot of the first frame is taken back, and the run is over. -/
structure Exit (m : Chain) : Prop where
  work : Work B c m (Block B c.env)
  takeBack : e.takeBack m.backend = .ok () d.backend
  first : m.parents = []
  parents : d.parents = []
  env : d.env = c.env

/-- **Where one step may take a chain**, if the step leaves a frame by `e` and enters children of
the kind `O`. -/
inductive Moved (O : CallEnv → Prop) : Chain → Prop
  | work {d : Chain} (h : Work B c d (Block B c.env)) : Moved O d
  | enter {d m : Chain} {frame : Frame} {child : CallEnv} (h : Enter B c d O m frame child) :
    Moved O d
  | leave {d m : Chain} {parent : Frame} (h : Leave B e c d m parent) : Moved O d
  | pass {d m m' u : Chain} {frame parent : Frame} {child : CallEnv}
      (h : Enter B c u O m frame child) (h' : Leave B .commit u d m' parent) : Moved O d

end Chain

/-- **Where an opcode lands**: it moves the chain and the run goes on, it exits from the first
frame, or it stops the run where it is.  It fails only after a move, and the bookkeeping of the
snapshots aborts only where taking one back does. -/
def Lands (e : Ending) (O : CallEnv → Prop) (halts : Prop) (s : Evm)
    (o : Outcome Panic Error Evm OpAction) : Prop :=
  o.Sat
    (fun a t => (a.exit? = none ∧ Chain.Moved B e s.chain O t.chain) ∨
      (a.exit? ≠ none ∧ ∃ m, Chain.Exit B e s.chain t.chain m) ∨
      (halts ∧ a = .stop ∧ Chain.Work B s.chain t.chain (Block B s.env)))
    (fun _ t => Chain.Moved B e s.chain O t.chain)
    (fun p => (∃ f, p = .fault f) ∨
      ∃ m, Chain.Work B s.chain m (Block B s.env) ∧ e.takeBack m.backend = .panic p)

/-- **Where the end of a frame lands**: in its parent, or at the end of the run. -/
def Ends (e : Ending) (s : Evm) (o : Outcome Panic Error Evm OpAction) : Prop :=
  o.Sat
    (fun a t => (a.exit? = none ∧ ∃ m p, Chain.Leave B e s.chain t.chain m p) ∨
      (a.exit? ≠ none ∧ ∃ m, Chain.Exit B e s.chain t.chain m))
    (fun _ t => Chain.Work B s.chain t.chain (Block B s.env) ∨
      ∃ m p, Chain.Leave B e s.chain t.chain m p)
    (fun p => (∃ f, p = .fault f) ∨
      ∃ m, Chain.Work B s.chain m (Block B s.env) ∧ e.takeBack m.backend = .panic p)

end

/-! ## Work comes first

Whatever a frame does may be preceded by more of its work. -/

section

variable [Platform] {B : AccountStorage} {e : Ending} {O : CallEnv → Prop} {c d u m : Chain}
  {frame parent : Frame} {child : CallEnv}

namespace Chain

/-- Work in the blocks of the frame reached is work in those of the frame it started from. -/
theorem Work.append (h : Work B c u (Block B c.env)) (h' : Work B u d (Block B u.env)) :
    Work B c d (Block B c.env) := h.trans (h.env ▸ h')

theorem Ready.trans {r : Reason} (h : Ready B c u r) (h' : Work B u d fun _ => False) :
    Ready B c d r where
  work := h.work.trans (h'.mono fun _ h => h.elim)
  actions := (h'.grows.actions_eq fun _ => id).trans h.actions

theorem ready_refl (c : Chain) : Ready B c c .call := ⟨.refl c, by simp [opening]⟩

theorem Enter.append (h : Enter B c u O m frame child) (h' : Work B u d (Block B child)) :
    Enter B c d O m frame child := { h with work := h.work.trans h' }

theorem Leave.of_work (h : Work B c u (Block B c.env)) (h' : Leave B e u d m parent) :
    Leave B e c d m parent := { h' with work := h.append h'.work }

theorem Exit.of_work (h : Work B c u (Block B c.env)) (h' : Exit B e u d m) :
    Exit B e c d m := { h' with work := h.append h'.work, env := h'.env.trans h.env }

end Chain

/-- **Work before the end of a frame.** -/
theorem Ends.of_work {s t : Evm} {o : Outcome Panic Error Evm OpAction}
    (h : Chain.Work B s.chain t.chain (Block B s.env)) (ho : Ends B e t o) : Ends B e s o := by
  refine ho.imp (fun a v hv => ?_) (fun _ v hv => ?_) fun p hp => ?_
  · rcases hv with ⟨ha, m, p, hl⟩ | ⟨ha, m, hx⟩
    · exact .inl ⟨ha, m, p, hl.of_work h⟩
    · exact .inr ⟨ha, m, hx.of_work h⟩
  · rcases hv with hw | ⟨m, p, hl⟩
    · exact .inl (h.append hw)
    · exact .inr ⟨m, p, hl.of_work h⟩
  · rcases hp with hf | ⟨m, hw, hm⟩
    · exact .inl hf
    · exact .inr ⟨m, h.append hw, hm⟩

theorem Ends.lands {s : Evm} {o : Outcome Panic Error Evm OpAction} {halts : Prop}
    (ho : Ends B e s o) : Lands B e O halts s o := by
  refine ho.imp (fun a t ht => ?_) (fun _ t ht => ?_) fun p hp => hp
  · rcases ht with ⟨ha, m, p, hl⟩ | ⟨ha, m, hx⟩
    · exact .inl ⟨ha, .leave hl⟩
    · exact .inr (.inl ⟨ha, m, hx⟩)
  · rcases ht with hw | ⟨m, p, hl⟩
    · exact .work hw
    · exact .leave hl

/-- A snapshot that has just been taken can be committed. -/
theorem Chain.Enter.commit_ne_panic {p : Panic} (h : Enter B c u O m frame child)
    (hw : Work B u d (Block B u.env)) : commitSnapshot d.backend ≠ .panic p := by
  have hstack : d.backend.stack = m.backend.actions.length :: m.backend.stack :=
    hw.stack.trans h.work.stack
  simp [commitSnapshot, hstack]

/-- **A child that ends at once is passed.** -/
theorem Chain.Enter.pass {s t : Evm} {halts : Prop} {o : Outcome Panic Error Evm OpAction}
    (h : Enter B s.chain t.chain O m frame child) (ho : Ends B .commit t o) :
    Lands B .commit O halts s o := by
  have henv : t.env = child := h.work.env
  refine ho.imp (fun a v hv => ?_) (fun _ v hv => ?_) fun p hp => ?_
  · rcases hv with ⟨ha, m', p, hl⟩ | ⟨ha, m', hx⟩
    · exact .inl ⟨ha, .pass h hl⟩
    · have : t.chain.parents = [] := hx.work.parents.symm.trans hx.first
      exact absurd (h.work.parents.symm.trans this) (List.cons_ne_nil _ _)
  · rcases hv with hw | ⟨m', p, hl⟩
    · exact .enter (h.append (henv ▸ hw))
    · exact .pass h hl
  · rcases hp with hf | ⟨m', hw, hm⟩
    · exact .inl hf
    · exact absurd hm (h.commit_ne_panic hw)

end

end NeonEvm
