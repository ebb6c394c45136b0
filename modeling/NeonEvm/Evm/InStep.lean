import NeonEvm.Evm.Above

/-!
# Evm/InStep — one snapshot for every frame

    snapshots = frames      nothing aborts over a snapshot      a run that exits has none left

This holds in every run in which no frame returns from its first function and no nested frame of a
precompile address is resumed.  `RETF` there stops the run without committing the snapshot or
leaving the frame.
-/

namespace NeonEvm

open Exec ExecutorState Chain

/-- **Frames and snapshots are in step.** -/
def Progress.InStep : Progress → Prop
  | .running s | .failed _ s | .escaped _ s | .exited .stepLimit s =>
    s.backend.stack.length = s.parents.length + 1
  | .exited _ s =>
    s.parents = [] ∧ s.backend.stack = [] ∧ s.backend.intoActions () = .ok s.backend.actions ()
  | .panicked p => p ≠ .callStack ∧ p ≠ .sanity

/-! ## The invariant -/

/-- Every frame stands above the snapshot of the first, which is taken of the origin's nonce. -/
def Progress.Matched (origin : Address) : Progress → Prop
  | .running s | .failed _ s | .escaped _ s => Above [.evmIncrementNonce origin] [1] 0 s.chain
  | .exited status s => status ≠ .stepLimit ∧ s.parents = [] ∧ s.backend.stack = []
  | .panicked p => ∃ f, p = .fault f

variable {origin : Address} {s : Evm}

theorem Progress.Matched.inStep {p : Progress} (h : p.Matched origin) : p.InStep := by
  have length {c : Chain} (hc : Above [.evmIncrementNonce origin] [1] 0 c) :
      c.backend.stack.length = c.parents.length + 1 := by
    obtain ⟨top, hn, -, hmarks⟩ := hc.stacked.marks
    have hstack : c.backend.stack = top ++ [1] := hmarks
    simp [hstack, hn]
  cases p with
  | running s => exact length h
  | failed _ s => exact length h
  | escaped _ s => exact length h
  | panicked p =>
    obtain ⟨f, rfl⟩ := h
    exact ⟨nofun, nofun⟩
  | exited status s =>
    obtain ⟨hstatus, hparents, hstack⟩ := h
    cases status with
    | stepLimit => exact (hstatus rfl).elim
    | _ => exact ⟨hparents, hstack, by simp [intoActions, hstack]⟩

section

variable [Platform]

namespace Session

/-- The next opcode returns from the first function of its frame. -/
def returnsFromFirst (x : Session) : Bool :=
  match x.progress with
  | .running s => (s.opcodeAt x.isEof).any (NeonEvm.returnsFromFirst s)
  | _ => false

/-- The current frame was opened by another one and stands at the address of a precompile. -/
def nestedPrecompile (x : Session) : Bool :=
  match x.progress with
  | .running s => isPrecompileAddress s.env.context.contract && !s.parents.isEmpty
  | _ => false

/-- The steps that keep frames and snapshots in step. -/
def Orderly : Kind → Session → Prop
  | .next, x => x.returnsFromFirst = false
  | .resume, x => x.nestedPrecompile = false

end Session

variable {B : AccountStorage} {e : Ending} {O : CallEnv → Prop} {halts : Prop} {x y : Session}

/-- **A landing keeps the invariant** if it does not stop the run where it is. -/
theorem Progress.Lands.matched {p : Progress} (h : p.Lands B e O halts s) (hhalts : ¬halts)
    (hs : Above [.evmIncrementNonce origin] [1] 0 s.chain) : p.Matched origin := by
  cases p with
  | running t => exact Moved.above h hs (Nat.zero_le _)
  | failed _ t => exact Moved.above h hs (Nat.zero_le _)
  | escaped _ t => exact Moved.above h hs (Nat.zero_le _)
  | exited status t =>
    obtain ⟨hstatus, ⟨m, hx⟩ | ⟨hh, -⟩⟩ := h
    · have hret := (hx.work.above hs).returned e (by simp [hx.first]) hx.takeBack
      refine ⟨hstatus, hx.parents, ?_⟩
      cases e with
      | commit => exact hret.2
      | revert => exact hret.2
    · exact (hhalts hh).elim
  | panicked p =>
    rcases h with hf | ⟨m, hw, hp⟩
    · exact hf
    · exact ((hw.above hs).takeBack_ne_panic e (fun _ => rfl) hp).elim

/-- **Entering `execute`** keeps the invariant, but for a nested precompile. -/
theorem enter_matched (hs : Above [.evmIncrementNonce origin] [1] 0 s.chain)
    (hfirst : isPrecompileAddress s.env.context.contract → s.parents = []) :
    (enter s).Matched origin := by
  have h := enterVM_run s
  unfold enter
  cases hx : enterVM s with
  | err e t =>
    simp only [hx, Outcome.Sat] at h
  | panic p =>
    simp only [hx, Outcome.Sat] at h
    exact h.elim id fun h => (hs.takeBack_ne_panic .commit (fun _ => rfl) h.2).elim
  | ok o t =>
    simp only [hx, Outcome.Sat] at h
    cases o with
    | none =>
      obtain ⟨hframe, hparents, hbackend⟩ := h
      have : t.chain = s.chain := by simp [Evm.chain, Evm.env, hframe, hparents, hbackend]
      show Above _ _ _ t.chain
      exact this.symm ▸ hs
    | some status =>
      obtain ⟨hp, hstatus, -, hparents, hcommit⟩ := h
      exact ⟨hstatus, hparents.trans (hfirst hp),
        (hs.returned .commit (by simp [hfirst hp]) hcommit).2⟩

/-- **A step keeps the invariant.** -/
theorem Session.Step.matched (h : Session.Step B Session.Orderly x y)
    (hx : x.progress.Matched origin) : y.progress.Matched origin := by
  obtain ⟨k, hk, rfl⟩ := h
  obtain ⟨isEof, p⟩ := x
  cases k with
  | next =>
    cases p with
    | running s =>
      rcases micro_running B isEof s with ⟨f, hf⟩ | ⟨op, hop, hl⟩
      · show (micro B isEof (.running s)).Matched origin
        rw [hf]
        exact ⟨f, rfl⟩
      · refine hl.matched ?_ hx
        simpa [Session.Orderly, Session.returnsFromFirst, hop] using hk
    | failed err s =>
      have h : (micro B isEof (.failed err s)).Lands B .revert anyChild False s :=
        micro_failed B isEof err s
      exact h.matched id hx
    | _ => exact hx
  | resume =>
    cases p with
    | running s =>
      refine enter_matched hx fun hp => ?_
      simpa [Session.Orderly, Session.nestedPrecompile, hp] using hk
    | _ => exact hx

theorem Session.Starts.matched {trx : Transaction} (h : Session.Starts B trx origin x) :
    x.progress.Matched origin := by
  obtain ⟨m, b, tracer, hnew, rfl⟩ := h
  obtain ⟨base, hfresh⟩ : ∃ base, Machine.Fresh B origin m base b := by
    simpa [hnew, Outcome.Sat] using Machine.new_run (B := B) trx origin
  exact enter_matched hfresh.above fun _ => hfresh.parents

/-- **Frames and snapshots stay in step** in every run of orderly steps, over whatever accounts each
of them is given. -/
theorem frames_in_step {trx : Transaction} (hstart : Session.Starts B trx origin x)
    (hrun : Relation.ReflTransGen (fun x y => ∃ B, Session.Step B Session.Orderly x y) x y) :
    y.progress.InStep := by
  have hmatched : y.progress.Matched origin := by
    induction hrun with
    | refl => exact hstart.matched
    | tail _ h ih =>
      obtain ⟨B, h⟩ := h
      exact h.matched ih
  exact hmatched.inStep

end

/-! ## The run that breaks step -/

/-- EOF code with one function, which is `RETF` alone. -/
def retfCode : Bytes :=
  [0xEF, 0x00, 0x01, 0x01, 0x00, 0x04, 0x02, 0x00, 0x01, 0x00, 0x01, 0x03, 0x00, 0x00, 0x00,
    0x00, 0x00, 0x00, 0x00, 0xB1]

/-- The run has stopped, and a snapshot is left. -/
def Progress.leftOpen : Progress → Bool
  | .exited .stop s => s.backend.stack ≠ []
  | _ => false

theorem Progress.not_inStep_of_leftOpen {p : Progress} (h : p.leftOpen = true) : ¬p.InStep := by
  intro hp
  cases p with
  | exited status s =>
    cases status with
    | stop => simp [leftOpen, hp.2.1] at h
    | _ => cases h
  | _ => cases h

set_option maxRecDepth 10000 in
/-- **A transaction to that code breaks step**: it stops in its first opcode, the snapshot left. -/
theorem retf_breaks_step : ∃ (_ : Platform) (B : AccountStorage) (trx : Transaction)
    (origin : Address) (x y : Session), Session.Starts B trx origin x ∧
      Session.Run B (fun _ _ => True) x y ∧ ¬y.progress.InStep := by
  let _ := Platform.bare
  let B := AccountStorage.holding fun a => if a = 0x100 then retfCode else []
  have hstop : (Machine.new B (.callOf 0x100) 0x999 (ExecutorState.new B)).okAnd fun m b =>
      ((Session.enter ⟨m.frame, m.parents, b, none⟩).after B .next).progress.leftOpen := by
    decide +kernel
  obtain ⟨m, b, hnew, hopen⟩ := Outcome.exists_of_okAnd hstop
  exact ⟨_, B, .callOf 0x100, 0x999, _, _, ⟨m, b, none, hnew, rfl⟩, .single ⟨.next, trivial, rfl⟩,
    Progress.not_inStep_of_leftOpen hopen⟩

/-- A contract that calls the account `0x200` and stops. -/
def callerCode : Bytes :=
  [0x5F, 0x5F, 0x5F, 0x5F, 0x5F, 0x61, 0x02, 0x00, 0x5F, 0xF1, 0x00]

/-- The run has stopped. -/
def Progress.hasStopped : Progress → Bool
  | .exited .stop _ => true
  | _ => false

set_option maxRecDepth 10000 in
/-- Ten orderly steps through a call and back, to the end of the run. -/
theorem frames_in_step_call : ∃ (_ : Platform) (B : AccountStorage) (x y : Session),
    Session.Starts B (.callOf 0x100) 0x999 x ∧ Session.Run B Session.Orderly x y ∧
      y.progress.hasStopped ∧ y.progress.InStep := by
  let _ := Platform.bare
  let B := AccountStorage.holding fun a => if a = 0x100 then callerCode else []
  have hstop : (Machine.new B (.callOf 0x100) 0x999 (ExecutorState.new B)).okAnd fun m b =>
      ((Session.enter ⟨m.frame, m.parents, b, none⟩).follow B (!·.returnsFromFirst) 10).any
        (·.progress.hasStopped) := by
    decide +kernel
  obtain ⟨m, b, hnew, hstopped⟩ := Outcome.exists_of_okAnd hstop
  obtain ⟨y, hy, hstopped⟩ := Option.any_eq_true _ _ |>.1 hstopped
  have hstart : Session.Starts B (.callOf 0x100) 0x999
      (Session.enter ⟨m.frame, m.parents, b, none⟩) := ⟨m, b, none, hnew, rfl⟩
  have hrun : Session.Run B Session.Orderly (Session.enter ⟨m.frame, m.parents, b, none⟩) y :=
    Session.follow_run (fun x hx => by simpa [Session.Orderly] using hx) hy
  exact ⟨_, B, _, y, hstart, hrun, hstopped, frames_in_step hstart (Relation.ReflTransGen.mono (fun _ _ h => ⟨B, h⟩) _ _ hrun)⟩

end NeonEvm
