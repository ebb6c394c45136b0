import NeonEvm.Evm.Aborts
import NeonEvm.Evm.InStep

/-!
# Evm/Contained — every error ends as a revert, every run in a status

    running ──opcode fails──▸ failed ──the handler──▸ caller, told of it   or   exited (revert)

If no step aborts, and none has to hand an error to a memory that refuses it, there is nowhere else
for a run to be: `execute` returns an `ExitStatus`.
-/

namespace NeonEvm

open Exec ExecutorState Chain

section

variable [Platform] {B : AccountStorage} {origin : Address} {x y : Session} {k : Session.Kind}
  {s : Evm}

/-! ## Safe steps -/

/-- **A safe step** hands no error to a memory that refuses it, and has no reason to abort. -/
def Session.Safe (B : AccountStorage) (k : Session.Kind) (x : Session) : Prop :=
  x.Deliverable ∧ ¬x.Aborts B k

/-- A safe step over a backend whose reads answer. -/
def Session.SafeStep (x y : Session) : Prop := ∃ B : AccountStorage, B.Answers ∧
  Session.Step B (Session.Safe B) x y

/-- **Under way, or ended in a status**: no error is outside, and nothing has aborted. -/
def Progress.Inside : Progress → Prop
  | .running _ | .failed _ _ | .exited _ _ => True
  | .escaped _ _ | .panicked _ => False

/-- Under way with its snapshots in place and room in the parents, or ended in a status. -/
def Progress.Sound (origin : Address) : Progress → Prop
  | .running s | .failed _ s => Above [.evmIncrementNonce origin] [1] 0 s.chain ∧ s.Roomy
  | .exited _ _ => True
  | .escaped _ _ | .panicked _ => False

omit [Platform] in
theorem Progress.Sound.inside {p : Progress} (h : p.Sound origin) : p.Inside := by
  cases p with
  | running s => trivial
  | failed e s => trivial
  | exited status s => trivial
  | escaped e s => exact h
  | panicked q => exact h

omit [Platform] in
theorem Progress.Sound.contained {p : Progress} (h : p.Sound origin) : p.Contained := by
  cases p with
  | running s => exact h.2
  | failed e s => exact h.2
  | exited status s => trivial
  | escaped e s => exact h
  | panicked q => trivial

omit [Platform] in
/-- The parts of the invariant. -/
theorem Progress.Contained.sound {p : Progress} (h : p.Contained) (hpanic : ∀ q, p ≠ .panicked q)
    (habove : ∀ t, p.current = some t → Above [.evmIncrementNonce origin] [1] 0 t.chain) :
    p.Sound origin := by
  cases p with
  | running s => exact ⟨habove s rfl, h⟩
  | failed e s => exact ⟨habove s rfl, h⟩
  | exited status s => trivial
  | escaped e s => exact h
  | panicked q => exact hpanic q rfl

/-- **A landing is above the base** where the step started above it. -/
theorem Progress.Lands.above {e : Ending} {O : CallEnv → Prop} {halts : Prop} {p : Progress}
    {t : Evm} (h : p.Lands B e O halts s) (hs : Above [.evmIncrementNonce origin] [1] 0 s.chain)
    (ht : p.current = some t) : Above [.evmIncrementNonce origin] [1] 0 t.chain := by
  cases p with
  | running u =>
    obtain rfl := Option.some.inj ht
    exact Moved.above h hs (Nat.zero_le _)
  | failed _ u =>
    obtain rfl := Option.some.inj ht
    exact Moved.above h hs (Nat.zero_le _)
  | _ => cases ht

/-- **A failure whose message can be delivered** is reverted. -/
theorem Progress.Sound.reverted {e : Error} (isEof : Bool)
    (hs : (Progress.failed e s).Sound origin) (hrange : s.undeliverable = false) :
    Evm.Reverted e s (micro B isEof (.failed e s)) := by
  rcases micro_failed_reverted (B := B) isEof e hs.2 hrange with ⟨p, hp, -⟩ | h
  · exact absurd hp (hs.1.takeBack_ne_panic .revert fun _ => rfl)
  · exact h

omit [Platform] in
theorem Evm.Reverted.inside {e : Error} {p : Progress} (h : Evm.Reverted e s p) : p.Inside := by
  cases p with
  | running t => trivial
  | exited status t => trivial
  | failed _ _ => exact h.elim
  | escaped _ _ => exact h.elim
  | panicked _ => exact h.elim

/-- **A safe step keeps the invariant.** -/
theorem Session.sound_after (hB : B.Answers) (hx : x.progress.Sound origin) (hk : x.Safe B k) :
    (x.after B k).progress.Sound origin := by
  have hcontained : (x.after B k).progress.Contained :=
    Session.contained_after hx.contained hk.1
  obtain ⟨isEof, p⟩ := x
  cases p with
  | running s =>
    have habove : Above [.evmIncrementNonce origin] [1] 0 s.chain := hx.1
    refine hcontained.sound (fun q hq => ?_) fun t ht => ?_
    · have hmatched : (Progress.running s).Matched origin := habove
      exact hk.2 (Session.aborts_of_panicked hB hmatched rfl hq)
    · cases k with
      | next =>
        rcases micro_running B isEof s with ⟨f, hf⟩ | ⟨op, -, hl⟩
        · rw [show (Session.after B ⟨isEof, .running s⟩ .next).progress = _ from hf] at ht
          cases ht
        · exact hl.above habove ht
      | resume =>
        have hrun := enterVM_run s
        change (NeonEvm.enter s).current = some t at ht
        unfold NeonEvm.enter at ht
        cases hv : enterVM s with
        | panic q =>
          rw [hv] at ht
          cases ht
        | err e u =>
          rw [hv] at ht
          cases ht
        | ok o u =>
          rw [hv] at hrun ht
          cases o with
          | some status => cases ht
          | none =>
            obtain rfl := Option.some.inj ht
            obtain ⟨hframe, hparents, hbackend⟩ := hrun
            have hchain : u.chain = s.chain := by
              simp [Evm.chain, Evm.env, hframe, hparents, hbackend]
            exact hchain.symm ▸ habove
  | failed e s =>
    cases k with
    | resume => exact hx
    | next =>
      refine hcontained.sound (fun q hq => ?_) fun t ht => ?_
      · have hinside := (hx.reverted (B := B) isEof hk.1).inside
        rw [show micro B isEof (.failed e s) = .panicked q from hq] at hinside
        exact hinside
      · have hl : (micro B isEof (.failed e s)).Lands B .revert anyChild False s :=
          micro_failed B isEof e s
        exact hl.above hx.1 ht
  | exited status s =>
    cases k <;> trivial
  | escaped e s => exact hx.elim
  | panicked q => exact hx.elim

/-! ## New machines -/

/-- The state in which the executor hands a new machine to `execute`. -/
def Evm.IsNew (B : AccountStorage) (trx : Transaction) (origin : Address) (s : Evm) : Prop :=
  ∃ m b tracer, Machine.new B trx origin (ExecutorState.new B) = .ok m b ∧
    s = ⟨m.frame, m.parents, b, tracer⟩

/-- A machine outside `execute`. -/
def Evm.atRest (s : Evm) : Session := ⟨entryTable s, .running s⟩

theorem Evm.IsNew.sound {trx : Transaction} (hnew : s.IsNew B trx origin) :
    s.atRest.progress.Sound origin := by
  obtain ⟨m, b, tracer, hnew, rfl⟩ := hnew
  obtain ⟨base, hfresh⟩ : ∃ base, Machine.Fresh B origin m base b := by
    simpa [hnew, Outcome.Sat] using Machine.new_run (B := B) trx origin
  refine ⟨hfresh.above, fun p hp => ?_⟩
  have hparents : m.parents = [] := hfresh.parents
  simp [hparents] at hp

theorem Evm.IsNew.run_sound {trx : Transaction} (hnew : s.IsNew B trx origin) (hB : B.Answers)
    (henter : ¬s.atRest.Aborts B .resume)
    (hrun : Relation.ReflTransGen Session.SafeStep (Session.enter s) y) :
    y.progress.Sound origin := by
  induction hrun with
  | refl => exact Session.sound_after (x := s.atRest) hB hnew.sound ⟨trivial, henter⟩
  | tail _ h ih =>
    obtain ⟨B, hB, k, hk, rfl⟩ := h
    exact Session.sound_after hB ih hk

/-! ## `execute` -/

/-- **The loop ends**, at the latest behind its limit. -/
theorem isSome_runLoop {isEof : Bool} {fuel step limit : ℕ} (hlimit : limit < U64_MAX)
    (hstep : step ≤ limit) (hfuel : limit < step + fuel) :
    (runLoop B isEof fuel step limit s).isSome := by
  induction fuel generalizing step s with
  | zero => omega
  | succ fuel ih =>
    have hnext : (step + 1) % USIZE = step + 1 := Nat.mod_eq_of_lt (by unfold U64_MAX at hlimit; omega)
    unfold runLoop
    dsimp only
    rw [hnext]
    split
    · rfl
    · cases turn B isEof s with
      | running t => exact ih (by omega) (by omega)
      | _ => rfl

theorem isSome_execute {fuel limit : ℕ} (hlimit : limit < U64_MAX) (hfuel : limit < fuel) :
    (execute B fuel limit s).isSome := by
  unfold execute
  cases enter s with
  | running t =>
    rw [Option.isSome_map]
    exact isSome_runLoop hlimit (Nat.zero_le _) (by omega)
  | _ => rfl

/-- The loop has been left. -/
def Progress.Left : Progress → Prop
  | .running _ | .failed _ _ => False
  | _ => True

omit [Platform] in
theorem Evm.conclude_ne_failed {a : OpAction} {e : Error} {t : Evm} :
    Evm.conclude a s ≠ .failed e t := by
  unfold Evm.conclude
  dsimp only
  split
  · exact nofun
  · exact nofun

/-- **A turn handles its error.** -/
theorem turn_ne_failed {isEof : Bool} {e : Error} {t : Evm} : turn B isEof s ≠ .failed e t := by
  unfold turn
  cases h : micro B isEof (.running s) with
  | failed err u =>
    show micro B isEof (.failed err u) ≠ _
    unfold micro
    dsimp only
    cases Evm.handleError err u with
    | ok a v => exact Evm.conclude_ne_failed
    | err e' v => exact nofun
    | panic p => exact nofun
  | _ => exact nofun

theorem left_runLoop {isEof : Bool} {fuel step limit n : ℕ} {p : Progress}
    (h : runLoop B isEof fuel step limit s = some (p, n)) : p.Left := by
  induction fuel generalizing step s with
  | zero => cases h
  | succ fuel ih =>
    unfold runLoop at h
    dsimp only at h
    split at h
    · cases h
      trivial
    · cases ht : turn B isEof s with
      | running t =>
        rw [ht] at h
        exact ih h
      | failed e t => exact absurd ht turn_ne_failed
      | _ =>
        simp only [ht, Option.some.injEq, Prod.mk.injEq] at h
        rw [← h.1]
        trivial

omit [Platform] in
theorem Progress.left_traceEnd {p : Progress} : p.traceEnd.Left ↔ p.Left := by
  cases p <;> rfl

theorem left_enter (h : ∀ t, enter s ≠ .running t) : (enter s).Left := by
  unfold enter at h ⊢
  cases hv : enterVM s with
  | ok o t =>
    rw [hv] at h
    cases o with
    | none => exact absurd rfl (h t)
    | some status => trivial
  | err e t => trivial
  | panic p => trivial

/-- **`execute` ends outside its loop.** -/
theorem left_execute {fuel limit n : ℕ} {p : Progress}
    (h : execute B fuel limit s = some (p, n)) : p.Left := by
  unfold execute at h
  cases hs : enter s with
  | running t =>
    simp only [hs, Option.map_eq_some_iff, Prod.exists, Prod.mk.injEq] at h
    obtain ⟨q, m, hloop, rfl, -⟩ := h
    exact Progress.left_traceEnd.2 (left_runLoop hloop)
  | _ =>
    have hleft : (enter s).Left := left_enter (by simp [hs])
    simp only [hs, Option.some.injEq, Prod.mk.injEq] at h hleft
    rw [← h.1]
    exact Progress.left_traceEnd.2 hleft

omit [Platform] in
theorem Progress.Inside.exited {p : Progress} (h : p.Inside) (hleft : p.Left) :
    ∃ status t, p = .exited status t := by
  cases p with
  | exited status t => exact ⟨status, t, rfl⟩
  | running t => exact hleft.elim
  | failed e t => exact hleft.elim
  | escaped e t => exact h.elim
  | panicked q => exact h.elim

omit [Platform] in
theorem Progress.inside_traceEnd {p : Progress} : p.traceEnd.Inside ↔ p.Inside := by
  cases p <;> rfl

/-- **Errors never escape** a run of safe steps, through whatever cuts and over whatever accounts:
an opcode that fails ends as a revert of its frame, and `execute` itself returns a status, within every
step limit. -/
theorem errors_never_escape {trx : Transaction} (hB : B.Answers) (hnew : s.IsNew B trx origin)
    (henter : ¬s.atRest.Aborts B .resume) :
    (∀ y, Relation.ReflTransGen Session.SafeStep (Session.enter s) y → y.progress.Inside ∧
      ∀ (A : AccountStorage) (e : Error) (t : Evm), y.progress = .failed e t → y.Deliverable →
        Evm.Reverted e t (y.after A .next).progress) ∧
    ∀ fuel limit, limit < U64_MAX → limit < fuel →
      (∀ y, Session.Run B Session.Looping (Session.enter s) y → y.Safe B .next) →
        ∃ status t n, execute B fuel limit s = some (.exited status t, n) := by
  refine ⟨fun y hrun => ?_, fun fuel limit hlimit hfuel hsafe => ?_⟩
  · have hy := hnew.run_sound hB henter hrun
    refine ⟨hy.inside, fun A e t ht hdeliver => ?_⟩
    obtain ⟨isEof, p⟩ := y
    obtain rfl : p = .failed e t := ht
    exact hy.reverted (B := A) isEof hdeliver
  · obtain ⟨⟨p, n⟩, hp⟩ := Option.isSome_iff_exists.1 (isSome_execute (B := B) (s := s) hlimit hfuel)
    have hinside : p.Inside := by
      obtain ⟨y, hrun, hy⟩ := execute_run hp
      have hsteps : Relation.ReflTransGen Session.SafeStep (Session.enter s) y := by
        clear hy
        induction hrun with
        | refl => exact .refl
        | tail h hstep ih =>
          obtain ⟨k, rfl, rfl⟩ := hstep
          exact ih.tail ⟨B, hB, .next, hsafe _ h, rfl⟩
      rcases hy with rfl | ⟨t, -, rfl⟩
      · exact Progress.inside_traceEnd.2 (hnew.run_sound hB henter hsteps).inside
      · trivial
    obtain ⟨status, t, rfl⟩ := hinside.exited (left_execute hp)
    exact ⟨status, t, n, hp⟩

end

/-! ## The run that an error escapes from -/

/-- The backend that holds codes answers. -/
theorem AccountStorage.answers_holding (code : Address → Bytes) :
    (AccountStorage.holding code).Answers where
  nonce _ := ⟨_, rfl⟩
  balance _ := ⟨_, rfl⟩
  codeSize _ := ⟨_, rfl⟩
  codeHash _ := ⟨_, rfl⟩
  code _ := ⟨_, rfl⟩
  storage _ _ := ⟨_, rfl⟩
  blockHash _ := ⟨_, rfl⟩

/-- A contract that calls the account `0x200` and wants 32 bytes at `0x20000` for the result. -/
def farCallerCode : Bytes :=
  [0x60, 0x20, 0x62, 0x02, 0x00, 0x00, 0x5F, 0x5F, 0x5F, 0x61, 0x02, 0x00, 0x5F, 0xF1, 0x00]

/-- An error has escaped. -/
def Progress.hasEscaped : Progress → Bool
  | .escaped _ _ => true
  | _ => false

theorem Progress.exists_of_hasEscaped {p : Progress} (h : p.hasEscaped = true) :
    ∃ err t, p = .escaped err t := by
  cases p with
  | escaped err t => exact ⟨err, t, rfl⟩
  | _ => cases h

set_option maxRecDepth 10000 in
/-- **The child fails in its first opcode**, and its caller's memory cannot take the message: the
error of the write leaves `execute`. -/
theorem error_escapes : ∃ (_ : Platform) (B : AccountStorage) (trx : Transaction)
    (origin : Address) (s : Evm), B.Answers ∧ s.IsNew B trx origin ∧
      ∃ err t n, execute B 20 19 s = some (.escaped err t, n) := by
  let _ := Platform.bare
  let B := AccountStorage.holding fun a =>
    if a = 0x100 then farCallerCode else if a = 0x200 then invalidCode else []
  have hescaped : (Machine.new B (.callOf 0x100) 0x999 (ExecutorState.new B)).okAnd fun m b =>
      (execute B 20 19 ⟨m.frame, m.parents, b, none⟩).any (·.1.hasEscaped) := by
    decide +kernel
  obtain ⟨m, b, hnew, hescaped⟩ := Outcome.exists_of_okAnd hescaped
  obtain ⟨⟨p, n⟩, hp, hescaped⟩ := Option.any_eq_true _ _ |>.1 hescaped
  obtain ⟨err, t, rfl⟩ := Progress.exists_of_hasEscaped hescaped
  exact ⟨_, B, .callOf 0x100, 0x999, _, AccountStorage.answers_holding _, ⟨m, b, none, hnew, rfl⟩,
    err, t, n, hp⟩

/-! ## A run that nothing escapes from -/

section

variable [Platform]

/-- The step has aborted. -/
def Progress.hasPanicked : Progress → Bool
  | .panicked _ => true
  | _ => false

/-- A test of safety. -/
def Session.safely (B : AccountStorage) (x : Session) : Bool :=
  x.delivers && !(x.after B .next).progress.hasPanicked

theorem Session.safe_of_safely {B : AccountStorage} {x : Session} (h : x.safely B = true) :
    x.Safe B .next := by
  obtain ⟨hdelivers, hpanic⟩ := Bool.and_eq_true_iff.1 h
  refine ⟨Session.deliverable_of_delivers hdelivers, fun hab => ?_⟩
  obtain ⟨p, hp⟩ := hab.panicked
  rw [hp] at hpanic
  cases hpanic

/-- The run has ended in a status. -/
def Progress.hasExited : Progress → Bool
  | .exited _ _ => true
  | _ => false

/-- **A loop is safe** if each of its steps passes the test, to the end. -/
theorem Session.safe_of_follow {B : AccountStorage} {x y : Session} {n : ℕ}
    (h : (x.follow B (·.safely B) n).any (·.progress.hasExited) = true)
    (hrun : Session.Run B Session.Looping x y) : y.Safe B .next := by
  induction n generalizing x with
  | zero =>
    obtain ⟨isEof, p⟩ := x
    obtain ⟨status, t, rfl⟩ : ∃ status t, p = .exited status t := by
      cases p with
      | exited status t => exact ⟨status, t, rfl⟩
      | _ => cases h
    obtain rfl : y = ⟨isEof, .exited status t⟩ := by
      induction hrun with
      | refl => rfl
      | tail _ hstep ih =>
        obtain ⟨k, rfl, rfl⟩ := hstep
        rw [ih]
        rfl
    exact Session.safe_of_safely rfl
  | succ n ih =>
    unfold follow at h
    by_cases hx : x.safely B = true
    · rw [if_pos hx] at h
      rcases Relation.ReflTransGen.cases_head hrun with rfl | ⟨z, ⟨k, rfl, rfl⟩, hz⟩
      · exact Session.safe_of_safely hx
      · exact ih h hz
    · rw [if_neg hx] at h
      cases h

end

/-- The run has come to a failed opcode. -/
def Progress.hasFailed : Progress → Bool
  | .failed _ _ => true
  | _ => false

set_option maxRecDepth 10000 in
/-- The same child under a caller that wants nothing: it is reverted, and the caller goes on to its
end. -/
theorem errors_never_escape_call : ∃ (_ : Platform) (B : AccountStorage) (s : Evm) (y : Session)
    (e : Error) (t : Evm), B.Answers ∧ s.IsNew B (.callOf 0x100) 0x999 ∧
      Relation.ReflTransGen Session.SafeStep (Session.enter s) y ∧ y.progress = .failed e t ∧
      Evm.Reverted e t (y.after B .next).progress ∧
      ∃ status u n, execute B 20 19 s = some (.exited status u, n) := by
  let _ := Platform.bare
  let B := AccountStorage.holding fun a =>
    if a = 0x100 then callerCode else if a = 0x200 then invalidCode else []
  have hrun : (Machine.new B (.callOf 0x100) 0x999 (ExecutorState.new B)).okAnd fun m b =>
      !(Session.enter ⟨m.frame, m.parents, b, none⟩).progress.hasPanicked &&
      ((Session.enter ⟨m.frame, m.parents, b, none⟩).follow B (·.safely B) 9).any
        (·.progress.hasFailed) &&
      ((Session.enter ⟨m.frame, m.parents, b, none⟩).follow B (·.safely B) 11).any
        (·.progress.hasExited) := by
    decide +kernel
  obtain ⟨m, b, hnew, hrun⟩ := Outcome.exists_of_okAnd hrun
  simp only [Bool.and_eq_true] at hrun
  obtain ⟨⟨henter, hfailed⟩, hexited⟩ := hrun
  obtain ⟨y, hy, hfailed⟩ := Option.any_eq_true _ _ |>.1 hfailed
  obtain ⟨e, t, ht⟩ : ∃ e t, y.progress = .failed e t := by
    cases hp : y.progress with
    | failed e t => exact ⟨e, t, rfl⟩
    | _ =>
      rw [hp] at hfailed
      cases hfailed
  have hB : B.Answers := AccountStorage.answers_holding _
  have hs : Evm.IsNew B (.callOf 0x100) 0x999 ⟨m.frame, m.parents, b, none⟩ :=
    ⟨m, b, none, hnew, rfl⟩
  have hsteps : Relation.ReflTransGen Session.SafeStep
      (Session.enter ⟨m.frame, m.parents, b, none⟩) y :=
    Relation.ReflTransGen.mono (fun _ _ h => ⟨B, hB, h⟩) _ _
      (Session.follow_run (fun _ hx => Session.safe_of_safely hx) hy)
  have hresume : ¬(Evm.atRest ⟨m.frame, m.parents, b, none⟩).Aborts B .resume := by
    intro hab
    obtain ⟨p, hp⟩ := hab.panicked
    rw [show (Session.enter ⟨m.frame, m.parents, b, none⟩).progress = _ from hp] at henter
    cases henter
  have hcontained := errors_never_escape hB hs hresume
  have hsafe (z : Session) (hz : Session.Run B Session.Looping
      (Session.enter ⟨m.frame, m.parents, b, none⟩) z) : z.Safe B .next :=
    Session.safe_of_follow hexited hz
  have hdeliver : y.Deliverable := (hsafe y (Session.follow_run (fun _ _ => rfl) hy)).1
  exact ⟨_, B, _, y, e, t, hB, hs, hsteps, ht, (hcontained.1 y hsteps).2 B e t ht hdeliver,
    hcontained.2 20 19 (by decide) (by decide) hsafe⟩

end NeonEvm
