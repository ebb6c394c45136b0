import NeonEvm.Evm.Escape
import NeonEvm.Evm.NoTrace

/-!
# Evm/Suspended — a caller waits untouched

    caller │ child ── any run above ──▸ caller │ child

Nothing that runs over a frame touches the frames below it, nor the environment of the frame itself.
-/

namespace NeonEvm

open Exec ExecutorState Chain

/-! ## The frame that stays open -/

namespace Chain

/-- **A frame over `ps` is open**, as the current one or suspended under others. -/
def Holds (env : CallEnv) (ps : List Frame) (c : Chain) : Prop :=
  (c.env = env ∧ c.parents = ps) ∨ ∃ f : Frame, f.env = env ∧ f :: ps <:+ c.parents

variable {env : CallEnv} {ps : List Frame} {c d m u : Chain} {e : Ending} {frame parent : Frame}
  {child : CallEnv} {B : AccountStorage}

theorem Holds.of_eq (h : Holds env ps c) (henv : d.env = c.env) (hparents : d.parents = c.parents) :
    Holds env ps d := by
  rwa [Holds, henv, hparents]

theorem Holds.length_le (h : Holds env ps c) : ps.length ≤ c.parents.length := by
  rcases h with ⟨-, rfl⟩ | ⟨f, -, hf⟩
  · exact le_rfl
  · exact Nat.le_of_succ_le hf.length_le

/-- At its own depth the frame is the current one. -/
theorem Holds.current (h : Holds env ps c) (hlen : c.parents.length ≤ ps.length) :
    c.env = env ∧ c.parents = ps := by
  rcases h with h | ⟨f, -, hf⟩
  · exact h
  · exact absurd (hf.length_le.trans hlen) (Nat.not_succ_le_self _)

variable [Platform] {O : CallEnv → Prop}

theorem Enter.holds (h : Enter B c d O m frame child) (hc : Holds env ps c) : Holds env ps d := by
  have hparents : d.parents = frame :: c.parents :=
    h.work.parents.trans (congrArg _ h.ready.work.parents)
  refine .inr ?_
  rw [hparents]
  rcases hc with ⟨henv, rfl⟩ | ⟨f, hf, hsuffix⟩
  · exact ⟨frame, h.frameEnv.trans henv, List.suffix_refl _⟩
  · exact ⟨f, hf, hsuffix.trans (List.suffix_cons _ _)⟩

theorem Leave.holds (h : Leave B e c d m parent) (hc : Holds env ps c)
    (hd : ps.length ≤ d.parents.length) : Holds env ps d := by
  have hparents : c.parents = parent :: d.parents := h.work.parents.symm.trans h.parents
  rcases hc with ⟨-, rfl⟩ | ⟨f, hf, hsuffix⟩
  · rw [hparents] at hd
    exact absurd hd (Nat.not_succ_le_self _)
  · rw [hparents] at hsuffix
    rcases List.suffix_cons_iff.1 hsuffix with heq | hsuffix
    · obtain ⟨rfl, rfl⟩ := List.cons.inj heq
      exact .inl ⟨h.env.trans hf, rfl⟩
    · exact .inr ⟨f, hf, hsuffix⟩

/-- **A move above the frame leaves it open.** -/
theorem Moved.holds (h : Moved B e c O d) (hc : Holds env ps c)
    (hd : ps.length ≤ d.parents.length) : Holds env ps d := by
  cases h with
  | work h => exact hc.of_eq h.env h.parents
  | enter h => exact h.holds hc
  | leave h => exact h.holds hc hd
  | pass h h' => exact h'.holds (h.holds hc) hd

/-- One step leaves one frame at most. -/
theorem Moved.le_length (h : Moved B e c O d) : c.parents.length ≤ d.parents.length + 1 := by
  cases h with
  | work h => rw [h.parents]; exact Nat.le_succ _
  | enter h => rw [h.work.parents, h.ready.work.parents]; exact (Nat.le_succ _).trans (Nat.le_succ _)
  | leave h => exact h.length.le
  | pass h h' =>
    have hlen := h'.length
    rw [h.work.parents, h.ready.work.parents] at hlen
    exact (Nat.le_succ _).trans hlen.le

end Chain

section

variable [Platform] {B : AccountStorage} {env : CallEnv} {ps : List Frame} {x y : Session}
  {s t u v : Evm} {G : Session.Kind → Session → Prop}

/-- The session stands at the frame over `ps`, or above it. -/
def Session.StandsOn (env : CallEnv) (ps : List Frame) (x : Session) : Prop :=
  ∃ s, x.progress.current = some s ∧ Holds env ps s.chain

theorem Session.StandsOn.step (hx : x.StandsOn env ps) (h : Session.Step B G x y)
    (hy : y.IsOpen ps.length) : y.StandsOn env ps := by
  obtain ⟨s, hs, hholds⟩ := hx
  obtain ⟨k, -, rfl⟩ := h
  obtain ⟨t, ht, hfloor⟩ := hy
  refine ⟨t, ht, ?_⟩
  cases k with
  | next =>
    obtain ⟨O, hm⟩ := moved_next hs ht
    exact hm.holds hholds hfloor
  | resume => exact chain_resume hs ht ▸ hholds

/-- **The frames below an open frame wait as they are.** -/
theorem Session.StandsOn.run (hx : x.StandsOn env ps) (h : Session.OpenRun B ps.length x y) :
    y.StandsOn env ps := by
  obtain ⟨-, h⟩ := h
  induction h with
  | refl => exact hx
  | tail _ h ih => exact ih.step h.1 h.2

/-! ## Room in the parents, along a run -/

/-- The parents of the machine that a run stands at have room. -/
def Session.RoomyAt (x : Session) : Prop := ∀ s, x.progress.current = some s → s.Roomy

omit [Platform] in
theorem Progress.Contained.roomy {p : Progress} (h : p.Contained) (hs : p.current = some s) :
    s.Roomy := by
  cases p with
  | running u => cases hs; exact h
  | failed err u => cases hs; exact h
  | _ => cases hs

/-- An opcode, or the handler of an error, keeps room in the parents. -/
theorem micro_roomy {isEof : Bool} {p : Progress} (hp : p.current = some s) (hs : s.Roomy)
    (ht : (micro B isEof p).current = some t) : t.Roomy := by
  cases p with
  | running s =>
    cases hp
    have h := keepsRoom_runOpcode (B := B) isEof s hs
    unfold micro at ht
    dsimp only at ht
    cases ho : Evm.runOpcode B isEof s with
    | ok a u =>
      rw [ho] at h ht
      exact (Evm.conclude_contained h).roomy ht
    | err e u =>
      rw [ho] at h ht
      cases ht
      exact h
    | panic p =>
      rw [ho] at ht
      cases ht
  | failed err s =>
    cases hp
    have h := keepsRoom_ends (B := B) (ends_opcodeRevertImpl (.fromSlice err.revertMessage)) s hs
    unfold micro at ht
    dsimp only at ht
    cases ho : Evm.handleError err s with
    | ok a u =>
      rw [show Evm.opcodeRevertImpl (.fromSlice err.revertMessage) s = .ok a u from ho] at h
      rw [ho] at ht
      exact (Evm.conclude_contained h).roomy ht
    | err e u =>
      rw [ho] at ht
      cases ht
    | panic p =>
      rw [ho] at ht
      cases ht
  | _ => cases hp

theorem Session.RoomyAt.step (hx : x.RoomyAt) (h : Session.Step B G x y) : y.RoomyAt := by
  obtain ⟨k, -, rfl⟩ := h
  intro t ht
  obtain ⟨isEof, p⟩ := x
  cases hs : p.current with
  | none =>
    cases k with
    | next =>
      rw [Session.after, micro_over hs] at ht
      exact hx t ht
    | resume =>
      cases p with
      | running s => cases hs
      | _ => exact hx t ht
  | some s =>
    have hroomy : s.Roomy := hx s hs
    cases k with
    | next => exact micro_roomy hs hroomy ht
    | resume =>
      have hparents : t.parents = s.parents :=
        congrArg Chain.parents (chain_resume (x := ⟨isEof, p⟩) hs ht)
      intro q hq
      exact hroomy q (hparents ▸ hq)

theorem Session.RoomyAt.run (hx : x.RoomyAt) (h : Session.Run B G x y) : y.RoomyAt := by
  induction h with
  | refl => exact hx
  | tail _ h ih => exact ih.step h

theorem Session.Reached.roomyAt (h : Session.Reached B x) : x.RoomyAt := by
  obtain ⟨trx, origin, w, hw, hrun⟩ := h
  exact Session.RoomyAt.run (fun _ => hw.contained.roomy) hrun

/-! ## The end of the frame -/

theorem Session.Reached.openRun {n : ℕ} (hx : Session.Reached B x) (h : Session.OpenRun B n x y) :
    Session.Reached B y := by
  obtain ⟨trx, origin, w, hw, hrun⟩ := hx
  exact ⟨trx, origin, w, hw, hrun.trans (Relation.ReflTransGen.mono (fun _ _ h => h.1) _ _ h.2)⟩

/-- The frame of `t`, not the first one, ends by the step from `u` to `v`. -/
structure Session.Ends (B : AccountStorage) (t : Evm) (y : Session) (u v : Evm) : Prop where
  current : y.progress.current = some u
  env : u.env = t.env
  parents : u.parents = t.parents
  after : (y.after B .next).progress.current = some v
  left : v.parents.length < u.parents.length
  roomy : u.Roomy

/-- **A frame ends where it was opened**: over the same callers, as they were. -/
theorem Session.OpenRun.ends (hx : Session.Reached B x) (ht : x.progress.current = some t)
    (hchild : t.parents ≠ []) (hopen : Session.OpenRun B t.parents.length x y)
    (hended : (y.after B .next).EndedAt t.parents.length v) :
    ∃ u, Session.Ends B t y u v := by
  have hstands : y.StandsOn t.env t.parents :=
    Session.StandsOn.run ⟨t, ht, .inl ⟨rfl, rfl⟩⟩ hopen
  obtain ⟨u, hu, hholds⟩ := hstands
  have hpos : 0 < t.parents.length := List.length_pos_iff.2 hchild
  obtain ⟨hv, hlen⟩ : (y.after B .next).progress.current = some v ∧
      v.parents.length < t.parents.length := by
    unfold Session.EndedAt at hended
    cases hp : (y.after B .next).progress with
    | running z => rw [hp] at hended; exact ⟨congrArg some hended.1, hended.2⟩
    | failed e z => rw [hp] at hended; exact ⟨congrArg some hended.1, hended.2⟩
    | exited status z => rw [hp] at hended; exact absurd hended.2 hpos.ne'
    | _ => rw [hp] at hended; exact hended.elim
  obtain ⟨O, hm⟩ := Session.moved_next hu hv
  have hmove : u.parents.length ≤ v.parents.length + 1 := hm.le_length
  obtain ⟨henv, hparents⟩ := hholds.current (hmove.trans hlen)
  have hparents : u.parents = t.parents := hparents
  exact ⟨u, hu, henv, hparents, hv, hparents ▸ hlen, (hx.openRun hopen).roomyAt u hu⟩

end

end NeonEvm
