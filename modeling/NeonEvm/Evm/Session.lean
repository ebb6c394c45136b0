import Mathlib.Logic.Relation
import NeonEvm.Evm.Landing

/-!
# Evm/Session — runs, cut and resumed at any step

    start ─next─▸ · ─next─▸ · ─resume─▸ · ─next─▸ …

A session is a loop of `execute` together with the table it chose.  `next` goes on in the loop;
`resume` is a cut: `execute` is entered anew with the machine as it is.  Every result about runs is
an induction over these two.
-/

namespace NeonEvm

open Exec ExecutorState Chain

/-- A loop of `execute`: its table and how far it is. -/
structure Session where
  isEof : Bool
  progress : Progress

/-- A step of a session. -/
inductive Session.Kind where
  | next
  | resume

@[simp] theorem Evm.chain_traceEndStep (a : OpAction) (s : Evm) :
    (Evm.traceEndStep a s).chain = s.chain := by
  unfold Evm.traceEndStep
  split <;> rfl

theorem OpAction.exit?_ne_stepLimit (a : OpAction) : a.exit? ≠ some .stepLimit := by
  cases a <;> simp [OpAction.exit?]

variable [Platform]

namespace Session

/-- The session after one more step. -/
def after (B : AccountStorage) (x : Session) : Kind → Session
  | .next => ⟨x.isEof, micro B x.isEof x.progress⟩
  | .resume =>
    match x.progress with
    | .running s => ⟨entryTable s, enter s⟩
    | _ => x

/-- A step that meets the condition `G`. -/
def Step (B : AccountStorage) (G : Kind → Session → Prop) (x y : Session) : Prop :=
  ∃ k, G k x ∧ y = x.after B k

/-- A run whose steps meet the condition `G`. -/
abbrev Run (B : AccountStorage) (G : Kind → Session → Prop) : Session → Session → Prop :=
  Relation.ReflTransGen (Step B G)

/-- The session that `execute` opens. -/
def enter (s : Evm) : Session := ⟨entryTable s, NeonEvm.enter s⟩

/-- Go on in the loop for a number of steps, as long as the test passes. -/
def follow (B : AccountStorage) (test : Session → Bool) : ℕ → Session → Option Session
  | 0, x => some x
  | n + 1, x => if test x then follow B test n (x.after B .next) else none

theorem follow_run {B : AccountStorage} {test : Session → Bool} {G : Kind → Session → Prop}
    (hG : ∀ x, test x = true → G .next x) {n : ℕ} {x y : Session}
    (h : follow B test n x = some y) : Run B G x y := by
  induction n generalizing x with
  | zero =>
    cases h
    exact .refl
  | succ n ih =>
    unfold follow at h
    split at h
    · exact .head ⟨.next, hG x ‹_›, rfl⟩ (ih h)
    · cases h

/-- The session of a new machine, as the executor hands it to `execute`. -/
def Starts (B : AccountStorage) (trx : Transaction) (origin : Address) (x : Session) : Prop :=
  ∃ m b tracer, Machine.new B trx origin (ExecutorState.new B) = .ok m b ∧
    x = enter ⟨m.frame, m.parents, b, tracer⟩

end Session

/-! ## What comes next -/

/-- The opcode that a machine runs next under a table; none where its code section is missing. -/
def Evm.opcodeAt (isEof : Bool) (s : Evm) : Option Opcode :=
  match getCode s.env s.frame.locals with
  | .ok code => some (tableOf isEof (code.getOrDefault s.frame.locals.pc))
  | .error _ => none

/-- **The byte `b` comes next**, and its opcode starts in `s`. -/
def Session.Fetches (x : Session) (b : UInt8) (s : Evm) : Prop :=
  ∃ r, x.progress = .running r ∧ Evm.fetch r = .ok b s

omit [Platform] in
/-- The byte that is fetched, and what stays. -/
theorem Evm.fetch_ok {s t : Evm} {b : UInt8} (h : Evm.fetch s = .ok b t) : ∃ code,
    getCode s.env s.frame.locals = .ok code ∧ b = code.getOrDefault s.frame.locals.pc ∧
      t.frame = s.frame ∧ t.parents = s.parents ∧ t.backend = s.backend := by
  unfold Evm.fetch at h
  simp only [bind_run, get_run, Outcome.ok_andThen] at h
  cases hcode : getCode s.env s.frame.locals with
  | error f =>
    rw [hcode] at h
    cases h
  | ok code =>
    rw [hcode] at h
    obtain ⟨rfl, rfl⟩ := Outcome.ok.inj h
    exact ⟨code, rfl, rfl, rfl, rfl, rfl⟩

omit [Platform] in
/-- The next byte is there, or the code section is missing. -/
theorem Evm.fetch_cases (s : Evm) : (∃ f, getCode s.env s.frame.locals = .error f ∧
    Evm.fetch s = .panic (.fault f)) ∨ ∃ b t, Evm.fetch s = .ok b t := by
  unfold Evm.fetch
  simp only [bind_run, get_run, Outcome.ok_andThen]
  cases getCode s.env s.frame.locals with
  | error f => exact .inl ⟨f, rfl, rfl⟩
  | ok code => exact .inr ⟨_, _, rfl⟩

/-- Fetching only tells the tracer. -/
theorem Evm.runOpcode_run (B : AccountStorage) (isEof : Bool) (s : Evm) :
    (s.opcodeAt isEof = none ∧ ∃ f, Evm.runOpcode B isEof s = .panic (.fault f)) ∨
      ∃ op tracer, s.opcodeAt isEof = some op ∧
        Evm.runOpcode B isEof s = op.run B { s with tracer := tracer } := by
  unfold Evm.runOpcode Evm.fetch Evm.opcodeAt
  simp only [bind_run, get_run, Outcome.ok_andThen]
  cases getCode s.env s.frame.locals with
  | error f => exact .inl ⟨rfl, f, rfl⟩
  | ok code => exact .inr ⟨_, _, rfl, rfl⟩

/-! ## Where a step lands -/

/-- Where a step from `s` may lead, if it leaves its frame by `e`. -/
def Progress.Lands (B : AccountStorage) (e : Ending) (O : CallEnv → Prop) (halts : Prop)
    (s : Evm) : Progress → Prop
  | .running t | .failed _ t | .escaped _ t => Moved B e s.chain O t.chain
  | .exited status t => status ≠ .stepLimit ∧
    ((∃ m, Exit B e s.chain t.chain m) ∨
      halts ∧ status = .stop ∧ Work B s.chain t.chain (Block B s.env))
  | .panicked p => (∃ f, p = .fault f) ∨
    ∃ m, Work B s.chain m (Block B s.env) ∧ e.takeBack m.backend = .panic p

variable {B : AccountStorage} {e : Ending} {O : CallEnv → Prop} {halts : Prop} {s : Evm}

/-- **What a turn makes of its opcode** keeps the landing. -/
theorem Lands.conclude {a : OpAction} {t : Evm} (h : Lands B e O halts s (.ok a t)) :
    (Evm.conclude a t).Lands B e O halts s := by
  unfold Evm.conclude
  rcases h with ⟨ha, hm⟩ | ⟨ha, hx⟩ | ⟨hh, rfl, hw⟩
  · simpa [ha, Progress.Lands] using hm
  · cases hexit : a.exit? with
    | none => exact (ha hexit).elim
    | some status =>
      refine ⟨fun h => a.exit?_ne_stepLimit (h ▸ hexit), .inl ?_⟩
      simpa using hx
  · exact ⟨by simp, .inr ⟨hh, rfl, by simpa using hw⟩⟩

theorem micro_of_ok {isEof : Bool} {a : OpAction} {t : Evm}
    (h : Evm.runOpcode B isEof s = .ok a t) : micro B isEof (.running s) = Evm.conclude a t := by
  rw [micro, h]

theorem micro_of_err {isEof : Bool} {err : Error} {t : Evm}
    (h : Evm.runOpcode B isEof s = .err err t) : micro B isEof (.running s) = .failed err t := by
  rw [micro, h]

theorem micro_of_panic {isEof : Bool} {p : Panic} (h : Evm.runOpcode B isEof s = .panic p) :
    micro B isEof (.running s) = .panicked p := by
  rw [micro, h]

/-- **A step of a running machine** lands where its opcode does. -/
theorem micro_running (B : AccountStorage) (isEof : Bool) (s : Evm) :
    (∃ f, micro B isEof (.running s) = .panicked (.fault f)) ∨
      ∃ op, s.opcodeAt isEof = some op ∧
        (micro B isEof (.running s)).Lands B op.ending op.children (returnsFromFirst s op) s := by
  unfold micro
  dsimp only
  rcases Evm.runOpcode_run B isEof s with ⟨-, f, hf⟩ | ⟨op, tracer, hop, hrun⟩
  · exact .inl ⟨f, by rw [hf]⟩
  · refine .inr ⟨op, hop, ?_⟩
    have h : Lands B op.ending op.children (returnsFromFirst s op) s
      (op.run B { s with tracer := tracer }) := lands_opcode op { s with tracer := tracer }
    rw [hrun]
    cases ho : op.run B { s with tracer := tracer } with
    | ok a t => exact Lands.conclude (ho ▸ h)
    | err e t => rw [ho] at h; exact h
    | panic p => rw [ho] at h; exact h

/-- **A step behind a failure** reverts the frame. -/
theorem micro_failed (B : AccountStorage) (isEof : Bool) (err : Error) (s : Evm) :
    (micro B isEof (.failed err s)).Lands B .revert O halts s := by
  have h : Lands B .revert O halts s (Evm.handleError err s) :=
    (ends_opcodeRevertImpl _ s).lands
  unfold micro
  dsimp only
  cases ho : Evm.handleError err s with
  | ok a t => exact Lands.conclude (ho ▸ h)
  | err e t => rw [ho] at h; exact h
  | panic p => rw [ho] at h; exact h

/-- **Entering `execute`** answers for a precompile contract, and leaves all others alone. -/
theorem enterVM_run (s : Evm) :
    (enterVM s).Sat
      (fun o t => match o with
        | none => t.frame = s.frame ∧ t.parents = s.parents ∧ t.backend = s.backend
        | some status => isPrecompileAddress s.env.context.contract ∧ status ≠ .stepLimit ∧
          t.env = s.env ∧ t.parents = s.parents ∧ commitSnapshot s.backend = .ok () t.backend)
      (fun _ _ => False)
      fun p => (∃ f, p = .fault f) ∨
        isPrecompileAddress s.env.context.contract ∧ commitSnapshot s.backend = .panic p := by
  unfold enterVM
  simp only [bind_run, get_run, Outcome.ok_andThen]
  cases getCode s.env s.frame.locals with
  | error f => exact .inl ⟨f, rfl⟩
  | ok code =>
    cases hb : code.isInitialized && s.env.callData.isInitialized
      && s.frame.locals.returnData.isInitialized with
    | false =>
      simp only [bind_run, assertThat, hb]
      exact .inl ⟨.assertion, rfl⟩
    | true =>
      simp only [bind_run, assertThat, hb, if_true, pure_run, Outcome.ok_andThen, Evm.emit,
        modify_run]
      by_cases hp : isPrecompileAddress s.env.context.contract
      · rw [if_pos hp]
        simp only [bind_run, Evm.fallible, Evm.dbStack, zoom]
        cases hx : (precompile s.env.context.contract s.env.callData.toList).getD (abort .unwrap)
          () with
        | err e _ =>
          cases hpre : precompile s.env.context.contract s.env.callData.toList with
          | none => simp [hpre] at hx
          | some x => exact (precompile_ne_err hpre e (by simpa [hpre] using hx)).elim
        | panic f => exact .inl ⟨f, rfl⟩
        | ok value _ =>
          simp only [Outcome.ok_andThen, bind_run, zoom]
          cases hc : commitSnapshot s.backend with
          | ok _ b => exact ⟨hp, by simp, rfl, rfl, rfl⟩
          | err e b => exact (Ending.takeBack_ne_err .commit _ _ _ hc).elim
          | panic p => exact .inr ⟨hp, rfl⟩
      · rw [if_neg hp]
        exact ⟨rfl, rfl, rfl⟩

/-! ## `execute` is a run -/

/-- The steps that stay in the loop. -/
def Session.Looping : Session.Kind → Session → Prop := fun k _ => k = .next

theorem Session.run_next (B : AccountStorage) (x : Session) :
    Session.Run B Session.Looping x (x.after B .next) := .single ⟨.next, rfl, rfl⟩

/-- A turn of the loop is one step or two. -/
theorem turn_run (B : AccountStorage) (isEof : Bool) (s : Evm) :
    Session.Run B Session.Looping ⟨isEof, .running s⟩ ⟨isEof, turn B isEof s⟩ := by
  have first := Session.run_next B ⟨isEof, .running s⟩
  unfold turn
  cases h : micro B isEof (.running s) with
  | failed e t =>
    simp only [Session.after, h] at first
    exact first.trans (Session.run_next B ⟨isEof, .failed e t⟩)
  | _ => simpa only [Session.after, h] using first

/-- **The loop is a run** to where it ends, or to where it is cut. -/
theorem runLoop_run {isEof : Bool} {fuel step limit n : ℕ} {p : Progress}
    (h : runLoop B isEof fuel step limit s = some (p, n)) :
    ∃ q, Session.Run B Session.Looping ⟨isEof, .running s⟩ ⟨isEof, q⟩ ∧
      (p = q ∨ ∃ t, q = .running t ∧ p = .exited .stepLimit t) := by
  induction fuel generalizing step s with
  | zero => cases h
  | succ fuel ih =>
    unfold runLoop at h
    dsimp only at h
    split at h
    · cases h
      exact ⟨_, .refl, .inr ⟨s, rfl, rfl⟩⟩
    · have hturn := turn_run B isEof s
      cases ht : turn B isEof s with
      | running t =>
        rw [ht] at hturn h
        obtain ⟨q, hq, hp⟩ := ih h
        exact ⟨q, hturn.trans hq, hp⟩
      | _ =>
        simp only [ht, Option.some.injEq, Prod.mk.injEq] at h hturn
        exact ⟨_, hturn, .inl h.1.symm⟩

/-- **`execute` is a run** under the table of the frame it is entered with. -/
theorem execute_run {fuel limit n : ℕ} {p : Progress}
    (h : execute B fuel limit s = some (p, n)) :
    ∃ y, Session.Run B Session.Looping (Session.enter s) y ∧
      (p = y.progress.traceEnd ∨
        ∃ t, y.progress = .running t ∧ p = (Progress.exited .stepLimit t).traceEnd) := by
  unfold execute at h
  unfold Session.enter
  cases hs : enter s with
  | running t =>
    simp only [hs, Option.map_eq_some_iff, Prod.exists, Prod.mk.injEq] at h
    obtain ⟨q, k, hloop, rfl, -⟩ := h
    obtain ⟨q', hrun, hq⟩ := runLoop_run hloop
    refine ⟨_, hrun, hq.imp (fun h => by rw [h]) ?_⟩
    rintro ⟨u, hu, rfl⟩
    exact ⟨u, hu, rfl⟩
  | _ =>
    simp only [hs, Option.some.injEq, Prod.mk.injEq] at h
    exact ⟨_, .refl, .inl h.1.symm⟩

end NeonEvm
