import NeonEvm.Evm.NoTrace

/-!
# Evm/StaticCall — `STATICCALL` changes nothing

    STATICCALL opens a static frame │ its children are static │ static frames append nothing

`StaticAbove` is the invariant of the frames above the call: they are static, and the journal is the
one that was found when the first of them was entered.
-/

namespace NeonEvm

open Exec ExecutorState Chain

section

variable {B : AccountStorage} {s t : Evm} {α : Type}

/-! ## The opcode itself -/

/-- The journal is the same. -/
def Evm.Silent (s t : Evm) : Prop := t.backend.actions = s.backend.actions

instance : IsTrans Evm Evm.Silent := ⟨fun _ _ _ h h' => h'.trans h⟩

/-- Work without blocks leaves the journal as it is. -/
theorem Chain.Work.actions_eq {c d : Chain} {P : List Action → Prop} (h : Work B c d P)
    (hP : ∀ acts, ¬P acts) : d.backend.actions = c.backend.actions := h.grows.actions_eq hP

variable [Platform]

theorem Chain.Ready.silent (h : Ready B s.chain t.chain .call) : s.Silent t :=
  h.actions.trans (List.append_nil _)

/-- **A static frame ends in silence**, if it is committed. -/
theorem Ends.silent {o : Outcome Panic Error Evm OpAction} (hs : staticChild s.env)
    (h : Ends B .commit s o) : o.Within Evm.Silent s := by
  have work {m : Chain} (hw : Work B s.chain m (Block B s.env)) :
      m.backend.actions = s.backend.actions := hw.actions_eq (not_block hs.1 hs.2)
  have taken {m : Chain} {t : Evm} (hw : Work B s.chain m (Block B s.env))
      (ht : Ending.commit.takeBack m.backend = .ok () t.backend) : s.Silent t :=
    (congrArg Journal.entries (Ending.takeBack_ok ht).2.1).trans (work hw)
  refine Outcome.Sat.imp h (fun _ t ht => ?_) (fun _ t ht => ?_) fun _ _ => trivial
  · rcases ht with ⟨-, m, p, hl⟩ | ⟨-, m, hx⟩
    · exact taken hl.work hl.takeBack
    · exact taken hx.work hx.takeBack
  · rcases ht with hw | ⟨m, p, hl⟩
    · exact work hw
    · exact taken hl.work hl.takeBack

/-- **A precompile or an extension is silent** in a static frame. -/
theorem silent_precompile (ht : staticChild t.env) (address : Address) :
    (Evm.opcodeCallPrecompileImpl B address t).Within Evm.Silent t := by
  have answer {x : EvmM Bytes} (hx : Works B (fun _ => False) x) :
      ((x >>= fun value => Evm.opcodeReturnImpl (Buffer.fromSlice value)) t).Within
        Evm.Silent t := by
    refine Outcome.Sat.andThen ((hx t).imp (fun _ _ h => h)
      (fun _ _ h => h.actions_eq fun _ => id) fun _ _ => trivial) fun value u hu => ?_
    have henv : u.env = t.env := hu.env
    have hstatic : staticChild u.env := henv ▸ ht
    have hends : Ends B .commit u (Evm.opcodeReturnImpl (Buffer.fromSlice value) u) :=
      ends_opcodeReturnImpl _ u
    exact (hends.silent hstatic).trans (hu.actions_eq fun _ => id)
  simp only [Evm.opcodeCallPrecompileImpl, bind_run, get_run, Outcome.ok_andThen]
  cases precompile address t.env.callData.toList with
  | some x => exact answer (works_fallible x)
  | none =>
    cases hx : callPrecompileExtension B t.env.context address t.env.callData.toList
        t.env.isStatic with
    | none => rfl
    | some x =>
      refine answer (works_db ((moves_callPrecompileExtension hx).mono fun _ _ h => h.mono ?_))
      exact fun acts hacts => not_block ht.1 ht.2 acts (.extension hacts)

/-- **The opcode is silent**, whether it opens a frame, answers at once, or fails. -/
theorem silent_opcodeStaticcall (s : Evm) :
    (Evm.opcodeStaticcall B s).Within Evm.Silent s := by
  have h₀ : Ready B s.chain s.chain .call := ready_refl s.chain
  refine Outcome.Sat.andThen ((works_onLocals (B := B) (Evm.popCallArgs false) s).imp
    (fun _ _ h => h₀.trans h) (fun _ _ h => (h₀.trans h).silent) fun _ _ => trivial)
    fun args t h => ?_
  show ((Evm.forkCall B args _ >>= fun _ => _) t).Within Evm.Silent s
  refine Outcome.Sat.andThen ((forkCall_run rfl (.inl rfl) h).imp (fun _ _ h => h)
    (fun _ _ h => h.silent) fun _ _ => trivial) fun _ u hu => ?_
  obtain ⟨-, hreason, -, m, frame, hfork⟩ := hu
  have hbackend : u.backend = m.backend := hfork.backend
  have hready : m.backend.actions = s.backend.actions := by
    have := hfork.ready.actions
    rwa [Evm.chain_env u, hreason, opening, List.append_nil] at this
  set v : Evm := (Evm.setStatic u).setBackend (Evm.setStatic u).backend.snapshot
  have hv : s.Silent v := (congrArg (fun b : ExecutorState => b.actions) hbackend).trans hready
  exact (silent_precompile (t := v) ⟨rfl, hreason⟩ args.address).trans hv

/-! ## The frames above it -/

namespace Chain

variable {c d m u : Chain} {e : Ending} {O : CallEnv → Prop} {frame parent : Frame}
  {child : CallEnv} {base : List Action} {ms : List ℕ} {floor : ℕ}

/-- **Above a static call** — every frame over `floor` parents is static, and the journal is what it
was when the first of them was entered. -/
structure StaticAbove (base : List Action) (ms : List ℕ) (floor : ℕ) (c : Chain) : Prop where
  env : staticChild c.env
  parents : ∀ p ∈ c.parents.take (c.parents.length - floor), staticChild p.env
  above : Above base (base.length :: ms) floor c
  actions : c.backend.actions = base

/-- A static call that has been entered. -/
theorem Enter.staticAbove (h : Enter B c d staticChild m frame child) :
    StaticAbove c.backend.actions m.backend.stack (c.parents.length + 1) d := by
  have hactions : m.backend.actions = c.backend.actions := by
    simpa [h.kind.2, opening] using h.ready.actions
  have habove := h.above_entered
  rw [hactions, h.ready.work.parents] at habove
  refine ⟨h.work.env ▸ h.kind, ?_, habove, ?_⟩
  · simp [h.work.parents, h.ready.work.parents]
  · exact (h.work.actions_eq (not_block h.kind.1 h.kind.2)).trans hactions

theorem StaticAbove.work (h : Work B c d (Block B c.env)) (hc : StaticAbove base ms floor c) :
    StaticAbove base ms floor d where
  env := h.env ▸ hc.env
  parents := h.parents ▸ hc.parents
  above := h.above hc.above
  actions := (h.actions_eq (not_block hc.env.1 hc.env.2)).trans hc.actions

omit [Platform] in
/-- **The child of a static frame is static**, and not a creation. -/
theorem Opens.static_child {b : Database} {env : CallEnv} (h : Opens B b env child)
    (henv : staticChild env) : staticChild child := by
  have hstatic := h.isStatic henv.1
  refine ⟨hstatic, ?_⟩
  cases hr : child.reason with
  | call => rfl
  | create => simp [(h.create hr).1] at hstatic

theorem StaticAbove.enter (h : Enter B c d O m frame child) (hc : StaticAbove base ms floor c) :
    StaticAbove base ms floor d := by
  have hm := hc.work h.ready.work
  have hchild := h.opens.static_child hc.env
  refine ⟨h.work.env ▸ hchild, ?_, h.above hc.above, ?_⟩
  · rw [h.work.parents, List.length_cons, Nat.succ_sub hm.above.floor_le, List.take_succ_cons]
    refine List.forall_mem_cons.2 ⟨?_, hm.parents⟩
    exact h.frameEnv ▸ hc.env
  · exact (h.work.actions_eq (not_block hchild.1 hchild.2)).trans hm.actions

/-- **Leaving a static frame**, by a commit or by a revert, the journal is the same. -/
theorem StaticAbove.leave_actions (h : Leave B e c d m parent)
    (hc : StaticAbove base ms floor c) : d.backend.actions = base := by
  have hm := hc.work h.work
  by_cases hd : floor ≤ d.parents.length
  · -- reverting leaves a prefix, and the journal below is one of it
    have hover := (h.above hc.above hd).stacked.below
    have hle : (e.act m.backend.journal).entries.length ≤ m.backend.actions.length := by
      cases e with
      | commit => exact le_rfl
      | revert => exact List.length_take_le' _ _
    rw [← (Ending.takeBack_ok h.takeBack).2.1, hm.actions] at hle
    exact (hover.eq_of_length_le hle).symm
  · have hlen := h.length
    have hfloor := hc.above.floor_le
    have hreturned := hm.above.returned e (by rw [h.work.parents]; omega) h.takeBack
    cases e with
    | commit =>
      have hj := (Ending.takeBack_ok h.takeBack).2.1
      have ha : d.backend.actions = m.backend.actions := congrArg Journal.entries hj
      exact ha.trans hm.actions
    | revert => exact hreturned.1

theorem StaticAbove.leave (h : Leave B e c d m parent) (hc : StaticAbove base ms floor c)
    (hd : floor ≤ d.parents.length) : StaticAbove base ms floor d := by
  have hp := (hc.work h.work).parents
  rw [h.parents, List.length_cons, Nat.succ_sub hd, List.take_succ_cons,
    List.forall_mem_cons] at hp
  exact ⟨h.env ▸ hp.1, hp.2, h.above hc.above hd, hc.leave_actions h⟩

/-- **A move among static frames** keeps the journal, and them static. -/
theorem StaticAbove.moved (h : Moved B e c O d) (hc : StaticAbove base ms floor c) :
    d.backend.actions = base ∧ (floor ≤ d.parents.length → StaticAbove base ms floor d) := by
  cases h with
  | work h => exact ⟨(hc.work h).actions, fun _ => hc.work h⟩
  | enter h => exact ⟨(hc.enter h).actions, fun _ => hc.enter h⟩
  | leave h => exact ⟨hc.leave_actions h, hc.leave h⟩
  | pass h h' => exact ⟨(hc.enter h).leave_actions h', (hc.enter h).leave h'⟩

end Chain

/-! ## Runs -/

variable {e : Ending} {O : CallEnv → Prop} {halts : Prop} {base : List Action} {ms : List ℕ}
  {floor : ℕ} {x y : Session} {k : Session.Kind} {G : Session.Kind → Session → Prop}

/-- Where a static frame lands, the journal is the same. -/
theorem Chain.StaticAbove.lands {p : Progress} (hs : StaticAbove base ms floor s.chain)
    (hfloor : 0 < floor) (h : p.Lands B e O halts s) (ht : p.state = some t) :
    t.backend.actions = base := by
  cases p with
  | running u => cases ht; exact (hs.moved h).1
  | failed _ u => cases ht; exact (hs.moved h).1
  | escaped _ u => cases ht; exact (hs.moved h).1
  | panicked p => cases ht
  | exited status u =>
    cases ht
    rcases h.2 with ⟨m, hx⟩ | ⟨-, -, hw⟩
    · -- the first frame is not above the call
      have hle := hs.above.floor_le
      rw [← hx.work.parents, hx.first] at hle
      exact absurd hle hfloor.not_ge
    · exact (hs.work hw).actions

/-- The session stands above a static call. -/
def Session.StandsStatic (base : List Action) (ms : List ℕ) (floor : ℕ) (x : Session) : Prop :=
  ∃ s, x.progress.current = some s ∧ StaticAbove base ms floor s.chain

/-- **No step above a static call changes the journal.** -/
theorem Session.StandsStatic.actions (hx : x.StandsStatic base ms floor) (hfloor : 0 < floor)
    (ht : (x.after B k).progress.state = some t) : t.backend.actions = base := by
  obtain ⟨s, hs, hc⟩ := hx
  cases k with
  | next =>
    rcases lands_next B hs with ⟨f, hf⟩ | ⟨O, halts, -, hl⟩
    · simp [hf, Progress.state] at ht
    · exact hc.lands hfloor hl ht
  | resume =>
    obtain ⟨isEof, p⟩ := x
    cases p with
    | running u =>
      cases hs
      exact (enter_actions ht).trans hc.actions
    | failed err u =>
      cases hs
      cases ht
      exact hc.actions
    | _ => cases hs

theorem Session.StandsStatic.step (hx : x.StandsStatic base ms floor)
    (h : Session.Step B G x y) (hy : y.IsOpen floor) : y.StandsStatic base ms floor := by
  obtain ⟨s, hs, hc⟩ := hx
  obtain ⟨k, -, rfl⟩ := h
  obtain ⟨t, ht, hfloor⟩ := hy
  refine ⟨t, ht, ?_⟩
  cases k with
  | next =>
    obtain ⟨O, hm⟩ := moved_next hs ht
    exact (hc.moved hm).2 hfloor
  | resume => exact chain_resume hs ht ▸ hc

theorem Session.StandsStatic.run (hx : x.StandsStatic base ms floor)
    (h : Session.OpenRun B floor x y) : y.StandsStatic base ms floor := by
  obtain ⟨-, h⟩ := h
  induction h with
  | refl => exact hx
  | tail _ h ih => exact ih.step h.1 h.2

omit [Platform] in
/-- What ends a turn does not touch the chain. -/
theorem Evm.conclude_chain {a : OpAction} (ht : (Evm.conclude a s).state = some t) :
    t.chain = s.chain := by
  dsimp only [Evm.conclude] at ht
  cases ha : a.exit? <;> rw [ha] at ht <;> cases ht <;> simp

/-- **The step of the opcode is silent.** -/
theorem Session.silent_staticcall (hs : x.progress = .running s)
    (hop : s.opcodeAt x.isEof = some (.sys .staticcall))
    (ht : (x.after B .next).progress.state = some t) : s.Silent t := by
  obtain ⟨isEof, p⟩ := x
  obtain rfl : p = .running s := hs
  rcases Evm.runOpcode_run B isEof s with ⟨hnone, -⟩ | ⟨op, tracer, hop', hrun⟩
  · cases hop.symm.trans hnone
  obtain rfl : op = .sys .staticcall := Option.some.inj (hop'.symm.trans hop)
  have h : (Opcode.run B (.sys .staticcall) { s with tracer := tracer }).Within Evm.Silent s :=
    silent_opcodeStaticcall { s with tracer := tracer }
  simp only [Session.after, micro, hrun] at ht
  cases ho : Opcode.run B (.sys .staticcall) { s with tracer := tracer } with
  | ok a u =>
    rw [ho] at h ht
    exact (congrArg (fun c : Chain => c.backend.actions) (Evm.conclude_chain ht)).trans h
  | err e u =>
    rw [ho] at h ht
    cases ht
    exact h
  | panic p => simp [ho, Progress.state] at ht

/-- **A frame that a static call has entered stands above it.** -/
theorem Session.standsStatic_staticcall (hs : x.progress = .running s)
    (hop : s.opcodeAt x.isEof = some (.sys .staticcall))
    (hopen : (x.after B .next).IsOpen (s.parents.length + 1)) :
    ∃ ms, (x.after B .next).StandsStatic s.backend.actions ms (s.parents.length + 1) := by
  obtain ⟨isEof, p⟩ := x
  obtain rfl : p = .running s := hs
  obtain ⟨t, ht, hfloor⟩ := hopen
  have hm : Moved B .commit s.chain staticChild t.chain := by
    rcases micro_running B isEof s with ⟨f, hf⟩ | ⟨op, hop', hl⟩
    · simp [Session.after, hf, Progress.current] at ht
    · obtain rfl : op = .sys .staticcall := Option.some.inj (hop'.symm.trans hop)
      simp only [Session.after] at ht
      cases hp : micro B isEof (.running s) <;> rw [hp] at ht hl <;> cases ht <;> exact hl
  have henter : ∃ m frame child, Enter B s.chain t.chain staticChild m frame child :=
    hm.entered (hm.length_le.antisymm hfloor)
  obtain ⟨m, frame, child, henter⟩ := henter
  exact ⟨_, t, ht, henter.staticAbove⟩

/-- **`STATICCALL` changes nothing.**  The opcode leaves the journal as it is; so does every step
while the frame that it opens, or one above it, is current, the step that leaves it included; and all
of these frames are static. -/
theorem staticcall_changes_nothing (hs : x.progress = .running s)
    (hop : s.opcodeAt x.isEof = some (.sys .staticcall)) :
    (∀ t, (x.after B .next).progress.state = some t → t.backend.actions = s.backend.actions) ∧
    ∀ y u, Session.OpenRun B (s.parents.length + 1) (x.after B .next) y →
      y.progress.current = some u →
        (u.backend.actions = s.backend.actions ∧ u.env.isStatic = true ∧
          ∀ p ∈ u.parents.take (u.parents.length - (s.parents.length + 1)),
            p.env.isStatic = true) ∧
        ∀ k t, (y.after B k).progress.state = some t → t.backend.actions = s.backend.actions := by
  refine ⟨fun t => Session.silent_staticcall hs hop, fun y u hopen hu => ?_⟩
  obtain ⟨ms, hx⟩ := Session.standsStatic_staticcall hs hop hopen.1
  have hy := hx.run hopen
  obtain ⟨v, hv, hc⟩ := hx.run hopen
  obtain rfl : v = u := Option.some.inj (hv.symm.trans hu)
  refine ⟨⟨hc.actions, hc.env.1, fun p hp => (hc.parents p hp).1⟩, fun k t ht => ?_⟩
  exact hy.actions (Nat.succ_pos _) ht

end

/-! ## A static call that fails -/

/-- A contract that makes a static call to the account `0x200`. -/
def staticCallerCode : Bytes :=
  [0x5F, 0x5F, 0x5F, 0x5F, 0x5F, 0x61, 0x02, 0x00, 0x5F, 0xFA, 0x00]

/-- `STATICCALL` is next. -/
def Session.atStaticcall [Platform] (x : Session) : Bool :=
  match x.progress with
  | .running s => match s.opcodeAt x.isEof with
    | some (.sys .staticcall) => true
    | _ => false
  | _ => false

theorem Session.exists_of_atStaticcall [Platform] {x : Session} (h : x.atStaticcall = true) :
    ∃ s, x.progress = .running s ∧ s.opcodeAt x.isEof = some (.sys .staticcall) := by
  unfold atStaticcall at h
  split at h
  · split at h
    · exact ⟨_, ‹_›, ‹_›⟩
    · cases h
  · cases h

set_option maxRecDepth 10000 in
/-- The child that the eighth opcode calls fails where it would write to its storage. -/
theorem staticcall_changes_nothing_sstore : ∃ (_ : Platform) (B : AccountStorage) (x y : Session)
    (s t : Evm), x.progress = .running s ∧ s.opcodeAt x.isEof = some (.sys .staticcall) ∧
      Session.OpenRun B (s.parents.length + 1) (x.after B .next) y ∧
      (y.after B .next).progress.current = some t ∧ t.parents.length = s.parents.length ∧
      t.backend.actions = s.backend.actions := by
  let _ := Platform.bare
  let B := AccountStorage.holding fun a =>
    if a = 0x100 then staticCallerCode else if a = 0x200 then revertCode else []
  obtain ⟨w, y, r, t, u, v, hchild, hat⟩ :=
    Session.exists_child B (.callOf 0x100) 0x999 7 3 (fun w _ => w.atStaticcall) (by decide +kernel)
  obtain ⟨s, hs, hop⟩ := Session.exists_of_atStaticcall hat
  obtain rfl : s = r := by
    have hr := hchild.caller
    rw [hs] at hr
    exact Option.some.inj hr
  have hopen := hchild.openRun
  rw [hchild.length] at hopen
  have h := ((staticcall_changes_nothing hs hop).2 y u hopen hchild.current).2 .next v
    (Progress.state_of_current hchild.after)
  exact ⟨_, B, w, y, s, v, hs, hop, hopen, hchild.after,
    hchild.first.2.trans hchild.first.1.symm, h⟩

end NeonEvm
