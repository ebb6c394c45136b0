import NeonEvm.Evm.Session

/-!
# Evm/Fresh — what a run starts from

    checks · count the origin's nonce · snapshot · [count the contract's nonce] · transfer

The origin's nonce is counted below the first snapshot, so no revert takes it back.
-/

namespace NeonEvm

open Exec ExecutorState Chain

variable {B : AccountStorage}

/-- One executor state grows into another: its database does, over the same snapshots. -/
def ExecutorState.GrowsOver (B : AccountStorage) (P : List Action → Prop) (b c : ExecutorState) :
    Prop := Grows B P b.toDatabase c.toDatabase ∧ c.stack = b.stack

theorem ExecutorState.GrowsOver.trans {P : List Action → Prop} {b c d : ExecutorState}
    (h : GrowsOver B P b c) (h' : GrowsOver B P c d) : GrowsOver B P b d :=
  ⟨h.1.trans h'.1, h'.2.trans h.2⟩

theorem ExecutorState.GrowsOver.mono {P Q : List Action → Prop} {b c : ExecutorState}
    (h : GrowsOver B P b c) (hPQ : ∀ acts, P acts → Q acts) : GrowsOver B Q b c :=
  ⟨h.1.mono hPQ, h.2⟩

instance {P : List Action → Prop} : Std.Refl (GrowsOver B P) := ⟨fun _ => ⟨.refl _, rfl⟩⟩

theorem ExecutorState.moves_onDatabase {α : Type} {P : List Action → Prop} {x : Db α}
    (hx : Moves (Grows B P) x) : Moves (GrowsOver B P) (onDatabase x) := fun b => by
  have h := hx b.toDatabase
  unfold onDatabase zoom
  cases hb : x b.toDatabase with
  | ok a d =>
    rw [hb] at h
    exact ⟨h, rfl⟩
  | err e d =>
    rw [hb] at h
    exact ⟨h, rfl⟩
  | panic f => trivial

/-- Moves come first, then what is started where they lead. -/
theorem ExecutorState.sat_of_moves {α β : Type} (R : ExecutorState → ExecutorState → Prop)
    {x : Exec Fault Error ExecutorState α} {f : α → Exec Fault Error ExecutorState β}
    {Q : β → ExecutorState → Prop} {b : ExecutorState} (hx : Moves R x)
    (hf : ∀ a c, R b c → (f a c).Sat Q (fun _ _ => True) fun _ => True) :
    ((x >>= f) b).Sat Q (fun _ _ => True) fun _ => True :=
  Outcome.Sat.andThen ((hx b).imp (fun _ _ h => h) (fun _ _ _ => trivial) fun _ _ => trivial) hf

/-- The origin's nonce is counted, and nothing else has happened. -/
structure ExecutorState.Counted (B : AccountStorage) (origin : Address) (b : ExecutorState) :
    Prop where
  grows : GrowsOver B (fun _ => True) (ExecutorState.new B) b
  actions : b.actions = [.evmIncrementNonce origin]

/-- Counting the nonce of the origin and taking the first snapshot. -/
theorem ExecutorState.sat_counted {β : Type} {origin : Address}
    {f : Unit → Exec Fault Error ExecutorState β} {Q : β → ExecutorState → Prop}
    {b : ExecutorState} (h : GrowsOver B (fun _ => False) (ExecutorState.new B) b)
    (hf : ∀ c, Counted B origin c → (f () c.snapshot).Sat Q (fun _ _ => True) fun _ => True) :
    ((onDatabase (incrementNonce origin) >>= fun _ => modify snapshot >>= f) b).Sat Q
      (fun _ _ => True) fun _ => True := by
  have hb : b.actions = [] := h.1.actions_eq fun _ => id
  refine hf { b with actions := b.actions ++ [.evmIncrementNonce origin] } ⟨⟨?_, h.2⟩, by simp [hb]⟩
  exact (h.1.mono fun _ h => h.elim).trans (moves_pushAction trivial b.toDatabase)

namespace Machine

variable [Platform] (trx : Transaction) (origin : Address)

/-- **A new machine** has one frame, over the snapshot of a journal in which the origin's nonce is
counted and nothing else. -/
structure Fresh (B : AccountStorage) (origin : Address) (m : Machine) (base b : ExecutorState) :
    Prop where
  counted : Counted B origin base
  parents : m.parents = []
  locals : m.frame.locals = Locals.new
  isStatic : m.frame.env.isStatic = false
  caller : m.frame.env.context.caller = origin
  work : GrowsOver B (Block B m.frame.env) base.snapshot b

omit [Platform] in
/-- The checks of a transaction journal nothing. -/
theorem moves_checkTransaction {P : List Action → Prop} :
    Moves (Grows B P) (checkTransaction B trx origin) :=
  moves_bind (moves_nonce _) fun _ => moves_bind (moves_failIf _ _) fun _ =>
    moves_bind (moves_failIf _ _) fun _ => moves_bind (moves_failIf _ _) fun _ =>
    moves_bind (moves_balance _) fun _ => moves_bind (moves_failIf _ _) fun _ =>
    moves_bind (moves_codeSize _) fun _ => moves_failIf _ _

/-- The blocks of a frame of which only the context is known yet. -/
def FirstBlock (B : AccountStorage) (context : Context) (acts : List Action) : Prop :=
  ∀ env : CallEnv, env.context = context → env.isStatic = false → Block B env acts

theorem moves_received (context : Context) :
    Moves (Grows B (FirstBlock B context))
      (transfer B context.caller context.contract context.value) :=
  moves_transfer fun hvalue hne env hcontext hstatic => by
    subst hcontext
    exact .received hstatic hvalue hne

variable {B : AccountStorage} {trx origin}

theorem newCall_run {b : ExecutorState} {target : Address}
    (h : GrowsOver B (fun _ => False) (ExecutorState.new B) b) :
    (newCall B trx origin target b).Sat (fun m c => ∃ base, Fresh B origin m base c)
      (fun _ _ => True) fun _ => True := by
  let context : Context := ⟨origin, target, trx.value, some target⟩
  let R := GrowsOver B (FirstBlock B context)
  refine sat_counted h fun base hbase => ?_
  refine sat_of_moves R (moves_onDatabase <| moves_received context) fun _ c hc => ?_
  refine sat_of_moves R (moves_onDatabase <| moves_code _) fun executionCode d hd => ?_
  refine sat_of_moves R (moves_lift _) fun container e he => ?_
  exact ⟨base, {
    counted := hbase
    parents := rfl
    locals := rfl
    isStatic := rfl
    caller := rfl
    work := ((hc.trans hd).trans he).mono fun _ h => h _ rfl rfl }⟩

theorem newCreate_run {b : ExecutorState}
    (h : GrowsOver B (fun _ => False) (ExecutorState.new B) b) :
    (newCreate B trx origin b).Sat (fun m c => ∃ base, Fresh B origin m base c)
      (fun _ _ => True) fun _ => True := by
  let R₀ := GrowsOver B fun _ => False
  refine sat_of_moves R₀ (moves_onDatabase <| moves_nonce _) fun _ c hc => ?_
  refine sat_of_moves R₀ (moves_failIf _ _) fun _ d hd => ?_
  refine sat_of_moves R₀ (moves_onDatabase <| moves_codeSize _) fun _ e he => ?_
  refine sat_of_moves R₀ (moves_failIf _ _) fun _ b' hb' => ?_
  refine sat_counted ((((h.trans hc).trans hd).trans he).trans hb') fun base hbase => ?_
  let context : Context := ⟨origin, Address.fromCreate origin trx.nonce, trx.value, none⟩
  let R := GrowsOver B (FirstBlock B context)
  have counted : Moves R (onDatabase (incrementNonce context.contract)) :=
    moves_onDatabase <| moves_pushAction fun env hcontext hstatic => hcontext ▸ .counted hstatic
  refine sat_of_moves R counted fun _ c hc => ?_
  refine sat_of_moves R (moves_onDatabase <| moves_received context) fun _ d hd => ?_
  refine sat_of_moves R (moves_lift _) fun container e he => ?_
  exact ⟨base, {
    counted := hbase
    parents := rfl
    locals := rfl
    isStatic := rfl
    caller := rfl
    work := ((hc.trans hd).trans he).mono fun _ h => h _ rfl rfl }⟩

/-- **`Machine::new` gives a fresh machine.** -/
theorem new_run (trx : Transaction) (origin : Address) :
    (new B trx origin (ExecutorState.new B)).Sat (fun m b => ∃ base, Fresh B origin m base b)
      (fun _ _ => True) fun _ => True := by
  refine sat_of_moves (GrowsOver B fun _ => False) (moves_onDatabase <| moves_checkTransaction trx origin) fun _ c hc => ?_
  cases trx.target with
  | some target => exact newCall_run hc
  | none => exact newCreate_run hc

end Machine

end NeonEvm
