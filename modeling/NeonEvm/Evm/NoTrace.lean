import NeonEvm.Evm.InStep
import NeonEvm.Executor.Reads

/-!
# Evm/NoTrace — a failed frame leaves no trace, a successful one loses nothing

    open ── any run above ──▸ end by REVERT or by an error      the reads are what they were
                            ▸ end by anything else              the journal is what it was, and more

Both are read off `Above`: the frame's snapshot is there from its opening to its end, whatever is
opened, committed and reverted over it.
-/

namespace NeonEvm

open Exec ExecutorState Chain

/-- The machine that a run stands at between two steps. -/
def Progress.current : Progress → Option Evm
  | .running s | .failed _ s => some s
  | _ => none

section

variable [Platform]

namespace Session

/-- A session that some transaction leads to, cut and resumed anywhere. -/
def Reached (B : AccountStorage) (x : Session) : Prop :=
  ∃ trx origin w, Starts B trx origin w ∧ Run B (fun _ _ => True) w x

/-- **A frame has just been opened** over `floor` parents; `d` is the database just before its
snapshot was taken. -/
inductive Opened (B : AccountStorage) : (floor : ℕ) → (d : Database) → Session → Prop
  /-- The first frame: the origin's nonce is counted before. -/
  | first {trx : Transaction} {origin : Address} {x : Session} (h : Starts B trx origin x) :
    Opened B 0 { (ExecutorState.new B).toDatabase with actions := [.evmIncrementNonce origin] } x
  /-- A child: a creation is counted in the creator's nonce before. -/
  | child {w : Session} {s t : Evm} (hw : Reached B w) (hs : w.progress.current = some s)
      (ht : (w.after B .next).progress.current = some t)
      (hlen : t.parents.length = s.parents.length + 1) :
    Opened B t.parents.length
      { s.backend.toDatabase with
        actions := s.backend.actions ++ opening s.env t.env.reason } (w.after B .next)

/-- The frame over `floor` parents, or one opened above it, is current. -/
def IsOpen (floor : ℕ) (x : Session) : Prop :=
  ∃ s, x.progress.current = some s ∧ floor ≤ s.parents.length

/-- A run through which the frame over `floor` parents stays open. -/
def OpenRun (B : AccountStorage) (floor : ℕ) (x y : Session) : Prop :=
  x.IsOpen floor ∧
    Relation.ReflTransGen (fun x y => Step B (fun _ _ => True) x y ∧ y.IsOpen floor) x y

/-- The frame over `floor` parents has ended, and the run stands at the machine `t`. -/
def EndedAt (floor : ℕ) (t : Evm) (x : Session) : Prop :=
  match x.progress with
  | .running s | .failed _ s => s = t ∧ t.parents.length < floor
  | .exited _ s => s = t ∧ floor = 0
  | _ => False

/-- The next step ends its frame in failure, if it ends it: an opcode has failed, or `REVERT` is
next. -/
def fails (x : Session) : Bool :=
  match x.progress with
  | .failed _ _ => true
  | .running s => (s.opcodeAt x.isEof).any (·.ending = .revert)
  | _ => false

end Session

/-- How the next step ends its frame. -/
def Session.ending (x : Session) : Ending := if x.fails then .revert else .commit

variable {B : AccountStorage} {floor : ℕ} {d : Database} {base : List Action} {ms : List ℕ}
  {x y z : Session} {s t : Evm} {G : Session.Kind → Session → Prop}

/-! ## What a step does to the chain -/

/-- **The next step** of a machine lands by its ending; it stops the run where it is only if it does
not fail. -/
theorem Session.lands_next (B : AccountStorage) (hs : x.progress.current = some s) :
    (∃ f, (x.after B .next).progress = .panicked (.fault f)) ∨
      ∃ O halts, (halts → x.ending = .commit) ∧
        (x.after B .next).progress.Lands B x.ending O halts s := by
  obtain ⟨isEof, p⟩ := x
  cases p with
  | running s =>
    cases hs
    rcases micro_running B isEof s with hf | ⟨op, hop, hl⟩
    · exact .inl hf
    · have he : Session.ending ⟨isEof, .running s⟩ = op.ending := by
        unfold Session.ending Session.fails
        cases h : op.ending <;> simp [hop, h]
      refine .inr ⟨_, _, fun hret => he.trans ?_, he ▸ hl⟩
      match op, hret with
      | .sys .retf, _ => rfl
  | failed err s =>
    cases hs
    exact .inr ⟨anyChild, False, False.elim, micro_failed B isEof err s⟩
  | _ => cases hs

/-- A step between two machines moves the chain. -/
theorem Session.moved_next (hs : x.progress.current = some s)
    (ht : (x.after B .next).progress.current = some t) :
    ∃ O, Moved B x.ending s.chain O t.chain := by
  rcases lands_next B hs with ⟨f, hf⟩ | ⟨O, halts, -, hl⟩
  · simp [hf, Progress.current] at ht
  · cases hp : (x.after B .next).progress with
    | running u =>
      rw [hp] at ht hl
      cases ht
      exact ⟨O, hl⟩
    | failed err u =>
      rw [hp] at ht hl
      cases ht
      exact ⟨O, hl⟩
    | _ => simp [hp, Progress.current] at ht

/-- Entering `execute` leaves the chain as it is, if the run goes on. -/
theorem enter_chain (ht : (enter s).current = some t) : t.chain = s.chain := by
  have h := enterVM_run s
  unfold enter at ht
  cases hx : enterVM s with
  | ok o u =>
    cases o with
    | none =>
      obtain rfl : u = t := by simpa [hx, Progress.current] using ht
      simp only [hx, Outcome.Sat] at h
      obtain ⟨hframe, hparents, hbackend⟩ := h
      simp [Evm.chain, Evm.env, hframe, hparents, hbackend]
    | some status => simp [hx, Progress.current] at ht
  | _ => simp [hx, Progress.current] at ht

theorem Session.chain_resume (hs : x.progress.current = some s)
    (ht : (x.after B .resume).progress.current = some t) : t.chain = s.chain := by
  obtain ⟨isEof, p⟩ := x
  cases p with
  | running s =>
    cases hs
    exact enter_chain ht
  | failed err s =>
    cases hs
    cases ht
    rfl
  | _ => cases hs

/-! ## A frame that stays open -/

/-- The session stands above a journal. -/
def Session.StandsAbove (base : List Action) (ms : List ℕ) (floor : ℕ) (x : Session) : Prop :=
  ∃ s, x.progress.current = some s ∧ Above base ms floor s.chain

/-- **A step keeps the journal below an open frame.** -/
theorem Session.StandsAbove.step (hx : x.StandsAbove base ms floor) (h : Session.Step B G x y)
    (hy : y.IsOpen floor) : y.StandsAbove base ms floor := by
  obtain ⟨s, hs, habove⟩ := hx
  obtain ⟨k, -, rfl⟩ := h
  obtain ⟨t, ht, hfloor⟩ := hy
  refine ⟨t, ht, ?_⟩
  cases k with
  | next =>
    obtain ⟨O, hm⟩ := moved_next hs ht
    exact hm.above habove hfloor
  | resume => exact chain_resume hs ht ▸ habove

/-- **So does a run.** -/
theorem Session.StandsAbove.run (hx : x.StandsAbove base ms floor)
    (h : Session.OpenRun B floor x y) : y.StandsAbove base ms floor := by
  obtain ⟨-, h⟩ := h
  induction h with
  | refl => exact hx
  | tail _ h ih => exact ih.step h.1 h.2

/-- **A frame that has just been opened stands above its snapshot.** -/
theorem Session.Opened.standsAbove (h : Session.Opened B floor d x) (hopen : x.IsOpen floor) :
    ∃ ms, x.StandsAbove d.actions (d.actions.length :: ms) floor := by
  cases h with
  | @first trx origin _ h =>
    obtain ⟨m, b, tracer, hnew, rfl⟩ := h
    obtain ⟨c, hfresh⟩ : ∃ c, Machine.Fresh B origin m c b := by
      simpa [hnew, Outcome.Sat] using Machine.new_run (B := B) trx origin
    obtain ⟨t, ht, -⟩ := hopen
    exact ⟨[], t, ht, enter_chain ht ▸ hfresh.above⟩
  | @child w s t hw hs ht hlen =>
    obtain ⟨O, hm⟩ := moved_next hs ht
    obtain ⟨m, frame, child, henter⟩ := hm.entered hlen
    have hchild : t.env = child := henter.work.env
    have hparents : m.parents.length + 1 = t.parents.length := by
      rw [henter.ready.work.parents]
      exact hlen.symm
    have hactions : m.backend.actions = s.backend.actions ++ opening s.env t.env.reason :=
      hchild ▸ henter.ready.actions
    refine ⟨m.backend.stack, t, ht, ?_⟩
    have := henter.above_entered
    rwa [hparents, hactions] at this

/-! ## The cache -/

/-- The machine that a run stands at, or has ended at. -/
def Progress.state : Progress → Option Evm
  | .running s | .failed _ s | .escaped _ s | .exited _ s => some s
  | .panicked _ => none

omit [Platform] in
theorem Progress.state_of_current {p : Progress} (h : p.current = some s) : p.state = some s := by
  cases p <;> first | exact h | cases h

/-- The executor's cache holds what the backend has. -/
def Session.CachedAt (B : AccountStorage) (x : Session) : Prop :=
  ∀ s, x.progress.state = some s → Cached B s.backend.toDatabase

omit [Platform] in
theorem Ending.cached {e : Ending} {b b' : ExecutorState} (h : e.takeBack b = .ok () b')
    (hb : Cached B b.toDatabase) : Cached B b'.toDatabase := fun key info hi =>
  hb key info ((Ending.takeBack_ok h).2.2 ▸ hi)

theorem Chain.Enter.cached {c d m : Chain} {O : CallEnv → Prop} {frame : Frame} {child : CallEnv}
    (h : Enter B c d O m frame child) (hc : Cached B c.backend.toDatabase) :
    Cached B d.backend.toDatabase :=
  h.work.grows.cached_of (h.ready.work.grows.cached_of hc)

theorem Chain.Moved.cached {e : Ending} {O : CallEnv → Prop} {c d : Chain} (h : Moved B e c O d)
    (hc : Cached B c.backend.toDatabase) : Cached B d.backend.toDatabase := by
  cases h with
  | work h => exact h.grows.cached_of hc
  | enter h => exact h.cached hc
  | leave h => exact Ending.cached h.takeBack (h.work.grows.cached_of hc)
  | pass h h' => exact Ending.cached h'.takeBack (h'.work.grows.cached_of (h.cached hc))

theorem Progress.Lands.cached {e : Ending} {O : CallEnv → Prop} {halts : Prop} {p : Progress}
    (h : p.Lands B e O halts s) (hs : Cached B s.backend.toDatabase) (ht : p.state = some t) :
    Cached B t.backend.toDatabase := by
  cases p with
  | running u => cases ht; exact Moved.cached h hs
  | failed _ u => cases ht; exact Moved.cached h hs
  | escaped _ u => cases ht; exact Moved.cached h hs
  | panicked p => cases ht
  | exited status u =>
    cases ht
    rcases h.2 with ⟨m, hx⟩ | ⟨-, -, hw⟩
    · exact Ending.cached hx.takeBack (hx.work.grows.cached_of hs)
    · exact hw.grows.cached_of hs

theorem enter_cached (hs : Cached B s.backend.toDatabase) (ht : (enter s).state = some t) :
    Cached B t.backend.toDatabase := by
  have h := enterVM_run s
  unfold enter at ht
  cases hx : enterVM s with
  | ok o u =>
    simp only [hx, Outcome.Sat] at h
    cases o with
    | none =>
      obtain rfl : u = t := by simpa [hx, Progress.state] using ht
      exact h.2.2 ▸ hs
    | some status =>
      obtain rfl : u = t := by simpa [hx, Progress.state] using ht
      exact Ending.cached (e := .commit) h.2.2.2.2 hs
  | err e u =>
    simp only [hx, Outcome.Sat] at h
  | panic p => simp [hx, Progress.state] at ht

/-- A run that is over stays where it is. -/
theorem micro_over {p : Progress} {isEof : Bool} (hp : p.current = none) :
    micro B isEof p = p := by
  cases p with
  | running s => cases hp
  | failed err s => cases hp
  | _ => rfl

theorem Session.CachedAt.step (hx : x.CachedAt B) (h : Session.Step B G x y) : y.CachedAt B := by
  obtain ⟨k, -, rfl⟩ := h
  intro t ht
  obtain ⟨isEof, p⟩ := x
  cases k with
  | next =>
    cases hp : p.current with
    | some s =>
      have hs : Cached B s.backend.toDatabase := hx s (Progress.state_of_current hp)
      rcases lands_next (x := ⟨isEof, p⟩) B hp with ⟨f, hf⟩ | ⟨O, halts, -, hl⟩
      · simp [hf, Progress.state] at ht
      · exact hl.cached hs ht
    | none =>
      refine hx t ?_
      rwa [Session.after, micro_over hp] at ht
  | resume =>
    cases p with
    | running s => exact enter_cached (hx s rfl) ht
    | _ => exact hx t ht

theorem Session.CachedAt.run (hx : x.CachedAt B) (h : Session.Run B G x y) : y.CachedAt B := by
  induction h with
  | refl => exact hx
  | tail _ h ih => exact ih.step h

theorem Session.Starts.cachedAt {trx : Transaction} {origin : Address}
    (h : Session.Starts B trx origin x) : x.CachedAt B := by
  obtain ⟨m, b, tracer, hnew, rfl⟩ := h
  obtain ⟨c, hfresh⟩ : ∃ c, Machine.Fresh B origin m c b := by
    simpa [hnew, Outcome.Sat] using Machine.new_run (B := B) trx origin
  intro t ht
  refine enter_cached ?_ ht
  have hbase : Cached B c.toDatabase := hfresh.counted.grows.1.cached_of (cached_new B)
  exact hfresh.work.1.cached_of hbase

theorem Session.Reached.cachedAt (h : Session.Reached B x) : x.CachedAt B := by
  obtain ⟨trx, origin, w, hw, hrun⟩ := h
  exact hw.cachedAt.run hrun

theorem Session.Opened.cachedAt (h : Session.Opened B floor d x) :
    Cached B d ∧ x.CachedAt B := by
  cases h with
  | first h => exact ⟨cached_new B, h.cachedAt⟩
  | @child w s t hw hs ht hlen =>
    have hcached := hw.cachedAt
    exact ⟨hcached s (Progress.state_of_current hs), hcached.step (G := fun _ _ => True)
      ⟨.next, trivial, rfl⟩⟩

/-! ## What survives -/

/-- The number of frames that are open. -/
def Progress.frames : Progress → ℕ
  | .running s | .failed _ s => s.parents.length + 1
  | _ => 0

/-- **A run in which no frame that was open at `x` has failed**: `n` of them are still open. -/
inductive Session.Survives (B : AccountStorage) (x : Session) : ℕ → Session → Prop
  | refl : Survives B x x.progress.frames x
  | up {n : ℕ} {y z : Session} (h : Survives B x n y) (hstep : Session.Step B (fun _ _ => True) y z)
      (hn : n ≤ z.progress.frames) : Survives B x n z
  | down {n : ℕ} {y z : Session} (h : Survives B x n y)
      (hstep : Session.Step B (fun _ _ => True) y z) (hn : z.progress.frames < n)
      (hok : y.fails = false) : Survives B x z.progress.frames z

/-- What has survived so far: the journal of `base`, under the snapshots of the frames opened since
over those that are still open. -/
def Progress.Keeps (base : List Action) (n : ℕ) : Progress → Prop
  | .running s | .failed _ s => 0 < n ∧ ∃ ms, Above base ms (n - 1) s.chain
  | .exited _ s => base <+: s.backend.actions
  | _ => True

omit [Platform] in
theorem Progress.keeps_of_current {p : Progress} {n : ℕ} (hp : p.current = some s) :
    p.Keeps base n ↔ 0 < n ∧ ∃ ms, Above base ms (n - 1) s.chain := by
  cases p <;> cases hp <;> rfl

omit [Platform] in
theorem Progress.frames_of_current {p : Progress} (hp : p.current = some s) :
    p.frames = s.parents.length + 1 := by
  cases p <;> cases hp <;> rfl

/-- Leaving the last of the frames that are still open by a commit. -/
theorem Chain.Moved.above_commit {O : CallEnv → Prop} {c d : Chain} (h : Moved B .commit c O d)
    (hc : Above base ms floor c) (hd : d.parents.length < floor) :
    Above base ms.tail d.parents.length d := by
  obtain ⟨m, parent, hleave, hm, hlen⟩ := h.below hc hd
  have hover : Journal.Over base ms 0 m.backend.journal := by simpa [hlen] using hm.stacked
  refine ⟨le_rfl, ?_⟩
  rw [Nat.sub_self, (Ending.takeBack_ok hleave.takeBack).2.1]
  exact hover.commit_last

/-- **A move between two machines** keeps what has survived. -/
theorem Chain.Moved.keeps {O : CallEnv → Prop} {e : Ending} {n : ℕ} (h : Moved B e s.chain O t.chain)
    (hs : 0 < n ∧ ∃ ms, Above base ms (n - 1) s.chain)
    (hok : t.parents.length + 1 < n → e = .commit) :
    ∃ ms, Above base ms (min n (t.parents.length + 1) - 1) t.chain := by
  obtain ⟨hn, ms, habove⟩ := hs
  by_cases hle : n ≤ t.parents.length + 1
  · rw [min_eq_left hle]
    exact ⟨ms, h.above habove (by simpa using (by omega : n - 1 ≤ t.parents.length))⟩
  · rw [min_eq_right (by omega)]
    obtain rfl := hok (by omega)
    exact ⟨ms.tail, h.above_commit habove (by simpa using (by omega : t.parents.length < n - 1))⟩

/-- The end of the run keeps what has survived. -/
theorem Progress.Lands.keeps_exited {O : CallEnv → Prop} {halts : Prop} {e : Ending} {n : ℕ}
    {status : ExitStatus} (h : (Progress.exited status t).Lands B e O halts s)
    (hs : 0 < n ∧ ∃ ms, Above base ms (n - 1) s.chain) (hok : e = .commit) :
    base <+: t.backend.actions := by
  obtain ⟨hn, ms, habove⟩ := hs
  rcases h.2 with ⟨m, hx⟩ | ⟨-, -, hw⟩
  · have hm := (hx.work.above habove).stacked.below
    subst hok
    have hj : t.backend.journal = m.backend.journal.commit := (Ending.takeBack_ok hx.takeBack).2.1
    have ha : t.backend.actions = m.backend.actions := congrArg Journal.entries hj
    exact ha ▸ hm
  · exact (hw.above habove).stacked.below

/-- Entering `execute` journals nothing. -/
theorem enter_actions (ht : (enter s).state = some t) : t.backend.actions = s.backend.actions := by
  have h := enterVM_run s
  unfold enter at ht
  cases hx : enterVM s with
  | ok o u =>
    simp only [hx, Outcome.Sat] at h
    cases o with
    | none =>
      obtain rfl : u = t := by simpa [hx, Progress.state] using ht
      rw [h.2.2]
    | some status =>
      obtain rfl : u = t := by simpa [hx, Progress.state] using ht
      exact congrArg Journal.entries (Ending.takeBack_ok (e := .commit) h.2.2.2.2).2.1
  | err e u =>
    simp only [hx, Outcome.Sat] at h
  | panic p => simp [hx, Progress.state] at ht

/-- A step between two machines keeps what has survived. -/
theorem Session.keeps_current {n : ℕ} {k : Session.Kind} (hs : x.progress.current = some s)
    (ht : (x.after B k).progress.current = some t)
    (hx : 0 < n ∧ ∃ ms, Above base ms (n - 1) s.chain)
    (hok : t.parents.length + 1 < n → x.fails = false) :
    ∃ ms, Above base ms (min n (t.parents.length + 1) - 1) t.chain := by
  cases k with
  | next =>
    obtain ⟨O, hm⟩ := moved_next hs ht
    exact hm.keeps hx fun hlt => by simp [Session.ending, hok hlt]
  | resume =>
    have hchain := chain_resume hs ht
    exact (Moved.work (B := B) (O := anyChild) (.of_eq hchain.symm)).keeps (e := .commit) hx fun _ => rfl

/-- The step that ends the run keeps what has survived. -/
theorem Session.keeps_exited {n : ℕ} {k : Session.Kind} {status : ExitStatus}
    (hs : x.progress.current = some s) (ht : (x.after B k).progress = .exited status t)
    (hx : 0 < n ∧ ∃ ms, Above base ms (n - 1) s.chain) (hok : x.fails = false) :
    base <+: t.backend.actions := by
  cases k with
  | next =>
    rcases lands_next B hs with ⟨f, hf⟩ | ⟨O, halts, -, hl⟩
    · rw [ht] at hf
      cases hf
    · rw [ht] at hl
      exact hl.keeps_exited hx (by simp [Session.ending, hok])
  | resume =>
    obtain ⟨-, ms, habove⟩ := hx
    obtain ⟨isEof, p⟩ := x
    cases p with
    | running u =>
      cases hs
      exact (enter_actions (by simp only [Session.after] at ht; rw [ht]; rfl)).symm ▸ habove.stacked.below
    | failed err u => cases ht
    | _ => cases hs

/-- **A step keeps what has survived**, unless it fails a frame that was open. -/
theorem Session.keeps_step {n : ℕ} (hx : x.progress.Keeps base n)
    (h : Session.Step B G x y) (hok : y.progress.frames < n → x.fails = false) :
    y.progress.Keeps base (min n y.progress.frames) := by
  obtain ⟨k, -, rfl⟩ := h
  cases hs : x.progress.current with
  | none =>
    -- the run is over, and stays so
    have hstay : (x.after B k).progress = x.progress := by
      cases k with
      | next => exact micro_over hs
      | resume =>
        obtain ⟨isEof, p⟩ := x
        cases p <;> first | cases hs; done | rfl
    rw [hstay]
    cases hp : x.progress <;> rw [hp] at hs hx <;> first | cases hs; done | exact hx
  | some s =>
    rw [Progress.keeps_of_current hs] at hx
    cases hp : (x.after B k).progress with
    | panicked _ => trivial
    | escaped _ _ => trivial
    | exited status t =>
      rw [hp] at hok
      exact keeps_exited hs hp hx (hok hx.1)
    | running t =>
      rw [hp] at hok
      exact ⟨lt_min hx.1 (Nat.succ_pos _), keeps_current hs (by rw [hp]; rfl) hx hok⟩
    | failed err t =>
      rw [hp] at hok
      exact ⟨lt_min hx.1 (Nat.succ_pos _), keeps_current hs (by rw [hp]; rfl) hx hok⟩

theorem Session.Survives.keeps {n : ℕ} (hs : x.progress.current = some s)
    (h : Session.Survives B x n y) : y.progress.Keeps s.backend.actions n := by
  induction h with
  | refl =>
    rw [Progress.keeps_of_current hs, Progress.frames_of_current hs]
    exact ⟨Nat.succ_pos _, _, above_self s.chain⟩
  | up _ hstep hn ih => exact min_eq_left hn ▸ keeps_step ih hstep (absurd · hn.not_gt)
  | down _ hstep hn hok ih => exact min_eq_right hn.le ▸ keeps_step ih hstep fun _ => hok

/-- **What has survived is in the journal.** -/
theorem Session.Survives.journal {n : ℕ} (hs : x.progress.current = some s)
    (h : Session.Survives B x n y) (ht : y.progress.current = some t ∨
      ∃ status, y.progress = .exited status t) : s.backend.actions <+: t.backend.actions := by
  have hk := h.keeps hs
  rcases ht with ht | ⟨status, ht⟩
  · rw [Progress.keeps_of_current ht] at hk
    obtain ⟨-, ms, habove⟩ := hk
    exact habove.stacked.below
  · rw [ht] at hk
    exact hk

/-! ## The end of a frame -/

/-- **Ending the frame of a snapshot** gives back what it was taken of, or that and more. -/
theorem Session.StandsAbove.ended (hy : y.StandsAbove base (base.length :: ms) floor)
    (hended : (y.after B .next).EndedAt floor t) :
    Returned base ms t.backend y.ending ∨
      y.ending = .commit ∧ base <+: t.backend.actions := by
  obtain ⟨s, hs, habove⟩ := hy
  rcases lands_next B hs with ⟨f, hf⟩ | ⟨O, halts, hhalts, hl⟩
  · simp [Session.EndedAt, hf] at hended
  unfold Session.EndedAt at hended
  have left (hlen : t.parents.length < floor) (hm : Moved B y.ending s.chain O t.chain) :
      Returned base ms t.backend y.ending := by
    obtain ⟨m, parent, hleave, hm, hfloor⟩ := hm.below habove hlen
    exact hm.returned _ hfloor hleave.takeBack
  cases hp : (y.after B .next).progress with
  | running u =>
    rw [hp] at hl hended
    obtain ⟨rfl, hlen⟩ := hended
    exact .inl (left hlen hl)
  | failed err u =>
    rw [hp] at hl hended
    obtain ⟨rfl, hlen⟩ := hended
    exact .inl (left hlen hl)
  | exited status u =>
    rw [hp] at hl hended
    obtain ⟨rfl, rfl⟩ := hended
    rcases hl.2 with ⟨m, hx⟩ | ⟨hh, -, hw⟩
    · exact .inl ((hx.work.above habove).returned _ (by simp [hx.first]) hx.takeBack)
    · exact .inr ⟨hhalts hh, (hw.above habove).stacked.below⟩
  | _ => simp [hp] at hended

omit [Platform] in
theorem Session.EndedAt.state (h : x.EndedAt floor t) : x.progress.state = some t ∧
    (x.progress.current = some t ∨ ∃ status, x.progress = .exited status t) := by
  unfold Session.EndedAt at h
  cases hp : x.progress with
  | running u => rw [hp] at h; exact ⟨congrArg some h.1, .inl (congrArg some h.1)⟩
  | failed err u => rw [hp] at h; exact ⟨congrArg some h.1, .inl (congrArg some h.1)⟩
  | exited status u => rw [hp] at h; exact ⟨congrArg some h.1, .inr ⟨status, h.1 ▸ rfl⟩⟩
  | _ => rw [hp] at h; exact h.elim

/-- **A failed frame leaves no trace, and a successful one loses nothing.**  The frame over `floor`
parents is opened in the session `x` on the database `d`, stays open up to `y`, and has ended after
the next step. -/
theorem failed_frame_leaves_no_trace (hopened : Session.Opened B floor d x)
    (hopen : Session.OpenRun B floor x y) (hended : (y.after B .next).EndedAt floor t) :
    (y.fails = true → t.backend.actions = d.actions ∧ SameReads B t.backend.toDatabase d) ∧
    (y.fails = false → d.actions <+: t.backend.actions ∧
      ∀ u n s, Session.OpenRun B floor x u → u.progress.current = some s →
        Session.Survives B u n (y.after B .next) → s.backend.actions <+: t.backend.actions) := by
  obtain ⟨ms, hx⟩ := hopened.standsAbove hopen.1
  have hreturned := (hx.run hopen).ended hended
  obtain ⟨hd, hcached⟩ := hopened.cachedAt
  have hrun : Session.Run B (fun _ _ => True) x (y.after B .next) :=
    (Relation.ReflTransGen.mono (fun _ _ h => h.1) _ _ hopen.2).tail ⟨.next, trivial, rfl⟩
  have ht : Cached B t.backend.toDatabase := hcached.run hrun t hended.state.1
  refine ⟨fun hfails => ?_, fun hok => ⟨?_, fun u n s _ hs hsurvives => ?_⟩⟩
  · have hactions : t.backend.actions = d.actions := by
      simp only [Session.ending, hfails, if_true] at hreturned
      rcases hreturned with h | h
      · exact h.1
      · cases h.1
    exact ⟨hactions, OneJournal.sameReads ⟨hactions, ht, hd⟩⟩
  · simp only [Session.ending, hok, Bool.false_eq_true, if_false] at hreturned
    exact hreturned.elim (·.1) (·.2)
  · exact hsurvives.journal hs hended.state.2

/-- A run whose sessions are all open. -/
theorem Session.OpenRun.of_run (h : Session.Run B (fun _ x => x.IsOpen floor) x y)
    (hy : y.IsOpen floor) : Session.OpenRun B floor x y := by
  induction h using Relation.ReflTransGen.head_induction_on with
  | refl => exact ⟨hy, .refl⟩
  | head h _ ih =>
    obtain ⟨k, hk, hstep⟩ := h
    exact ⟨hk, .head ⟨⟨k, trivial, hstep⟩, ih.1⟩ ih.2⟩

end

/-! ## A frame that fails -/

/-- A contract that writes to its storage and reverts. -/
def revertCode : Bytes := [0x60, 0x01, 0x5F, 0x55, 0x5F, 0x5F, 0xFD]

/-- The number of parents of the machine that a run stands at. -/
def Progress.depth (p : Progress) : Option ℕ := p.current.map (·.parents.length)

theorem Progress.exists_of_depth {p : Progress} {n : ℕ} (h : p.depth = some n) :
    ∃ s, p.current = some s ∧ s.parents.length = n := by
  simpa [depth] using h

/-- `k` steps of a caller, and `n` in the child that its next one opens. -/
def Session.intoChild [Platform] (B : AccountStorage) (k n : ℕ) (x : Session) :
    Option (Session × Session) :=
  (x.follow B (fun _ => true) k).bind fun w =>
    ((w.after B .next).follow B (·.progress.depth = some 1) n).map fun y => (w, y)

/-- The step after `w` opens a child, and the step after `y` ends it. -/
def Session.nests [Platform] (B : AccountStorage) (w y : Session) : Bool :=
  w.progress.depth = some 0 && (w.after B .next).progress.depth = some 1 &&
    y.progress.depth = some 1 && (y.after B .next).progress.depth = some 0

/-- A child is opened in the session after `w`, stays open up to `y`, and has ended after the next
step. -/
structure Session.Child [Platform] (B : AccountStorage) (w y : Session) (s t u v : Evm) : Prop where
  reached : Session.Reached B w
  caller : w.progress.current = some s
  opened : (w.after B .next).progress.current = some t
  length : t.parents.length = s.parents.length + 1
  openRun : Session.OpenRun B t.parents.length (w.after B .next) y
  current : y.progress.current = some u
  after : (y.after B .next).progress.current = some v
  ended : (y.after B .next).EndedAt t.parents.length v
  first : s.parents.length = 0 ∧ v.parents.length = 0

/-- **A child is found** by running its caller. -/
theorem Session.exists_child [Platform] (B : AccountStorage) (trx : Transaction) (origin : Address)
    (k n : ℕ) (test : Session → Session → Bool)
    (h : (Machine.new B trx origin (ExecutorState.new B)).okAnd fun m b =>
      ((Session.enter ⟨m.frame, m.parents, b, none⟩).intoChild B k n).any fun (w, y) =>
        w.nests B y && test w y) :
    ∃ w y s t u v, Session.Child B w y s t u v ∧ test w y = true := by
  obtain ⟨m, b, hnew, hrun⟩ := Outcome.exists_of_okAnd h
  obtain ⟨⟨w, y⟩, hwy, hrun⟩ := Option.any_eq_true _ _ |>.1 hrun
  obtain ⟨w', hw, hwy⟩ := Option.bind_eq_some_iff.1 hwy
  obtain ⟨y', hy, hwy⟩ := Option.map_eq_some_iff.1 hwy
  obtain ⟨rfl, rfl⟩ : w' = w ∧ y' = y := by simpa using hwy
  simp only [Session.nests, Bool.and_eq_true, decide_eq_true_eq, and_assoc] at hrun
  obtain ⟨hs, ht, hu, hv, htest⟩ := hrun
  obtain ⟨s, hs, hslen⟩ := Progress.exists_of_depth hs
  obtain ⟨t, ht, htlen⟩ := Progress.exists_of_depth ht
  obtain ⟨u, hu, hulen⟩ := Progress.exists_of_depth hu
  obtain ⟨v, hv, hvlen⟩ := Progress.exists_of_depth hv
  have hopen : Session.OpenRun B 1 (w'.after B .next) y' := by
    refine .of_run (Session.follow_run (fun x hx => ?_) hy) ⟨u, hu, hulen.ge⟩
    obtain ⟨a, ha, halen⟩ := Progress.exists_of_depth (of_decide_eq_true hx)
    exact ⟨a, ha, halen.ge⟩
  have hended : (y'.after B .next).EndedAt 1 v := by
    unfold Session.EndedAt
    cases hp : (y'.after B .next).progress <;> rw [hp] at hv <;>
      simp_all [Progress.current]
  exact ⟨w', y', s, t, u, v, {
    reached := ⟨_, _, _, ⟨m, b, none, hnew, rfl⟩, Session.follow_run (fun _ _ => trivial) hw⟩
    caller := hs
    opened := ht
    length := by rw [hslen, htlen]
    openRun := htlen.symm ▸ hopen
    current := hu
    after := hv
    ended := htlen.symm ▸ hended
    first := ⟨hslen, hvlen⟩ }, htest⟩

set_option maxRecDepth 10000 in
/-- The child that the eighth opcode calls writes, reverts, and leaves no trace. -/
theorem failed_frame_leaves_no_trace_revert : ∃ (_ : Platform) (B : AccountStorage) (d : Database)
    (x y : Session) (t : Evm), Session.Opened B 1 d x ∧ Session.OpenRun B 1 x y ∧
      (y.after B .next).EndedAt 1 t ∧ y.fails = true ∧ t.backend.actions = d.actions ∧
      SameReads B t.backend.toDatabase d := by
  let _ := Platform.bare
  let B := AccountStorage.holding fun a =>
    if a = 0x100 then callerCode else if a = 0x200 then revertCode else []
  obtain ⟨w, y, s, t, u, v, hchild, hfails⟩ :=
    Session.exists_child B (.callOf 0x100) 0x999 7 5 (fun _ y => y.fails) (by decide +kernel)
  have hlen : t.parents.length = 1 := by rw [hchild.length, hchild.first.1]
  have hopened := Session.Opened.child hchild.reached hchild.caller hchild.opened hchild.length
  have hopen := hchild.openRun
  have hended := hchild.ended
  rw [hlen] at hopened hopen hended
  have h := (failed_frame_leaves_no_trace hopened hopen hended).1 hfails
  exact ⟨_, B, _, _, y, v, hopened, hopen, hended, hfails, h.1, h.2⟩

end NeonEvm
