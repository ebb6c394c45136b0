import NeonEvm.Evm.Fresh

/-!
# Evm/Above — the chain above one of its snapshots

    base, ms │ snapshot │ the blocks of the frames opened since

Whatever the frames above a snapshot do, the journal below it stays.  Who leaves the frame of the
snapshot itself finds the journal it was taken of, or that journal and more.
-/

namespace NeonEvm

open Exec ExecutorState

variable {B : AccountStorage} {base : List Action} {ms : List ℕ} {floor : ℕ}

@[simp] theorem ExecutorState.journal_snapshot (s : ExecutorState) :
    s.snapshot.journal = s.journal.snapshot := rfl

namespace Chain

/-- **Above a journal** — the chain has `floor` parents or more, none of the snapshots `ms` has been
taken back since the journal was `base`, and there is one more for every frame opened since. -/
structure Above (base : List Action) (ms : List ℕ) (floor : ℕ) (c : Chain) : Prop where
  floor_le : floor ≤ c.parents.length
  stacked : Journal.Over base ms (c.parents.length - floor) c.backend.journal

variable {c d m u : Chain} {e : Ending} {frame parent : Frame} {child : CallEnv}

theorem above_self (c : Chain) : Above c.backend.actions c.backend.stack c.parents.length c :=
  ⟨le_rfl, (Nat.sub_self c.parents.length).symm ▸ Journal.over_self c.backend.journal⟩

theorem Work.journal {P : List Action → Prop} (h : Work B c d P) :
    ∃ acts, d.backend.journal = c.backend.journal.append acts := by
  obtain ⟨acts, -, hacts⟩ := h.grows.actions
  exact ⟨acts, by simp [ExecutorState.journal, Journal.append, hacts, h.stack]⟩

theorem Work.above {P : List Action → Prop} (h : Work B c d P) (hc : Above base ms floor c) :
    Above base ms floor d := by
  obtain ⟨acts, hacts⟩ := h.journal
  refine ⟨h.parents ▸ hc.floor_le, ?_⟩
  rw [hacts, h.parents]
  exact hc.stacked.append acts

/-- What is found when the snapshot of `base` is taken back. -/
def Returned (base : List Action) (ms : List ℕ) (b : ExecutorState) : Ending → Prop
  | .commit => base <+: b.actions ∧ b.stack = ms
  | .revert => b.actions = base ∧ b.stack = ms

theorem Above.returned (e : Ending) (h : Above base (base.length :: ms) floor m)
    (hm : m.parents.length = floor) {b : ExecutorState} (hb : e.takeBack m.backend = .ok () b) :
    Returned base ms b e := by
  have hover : Journal.Over base (base.length :: ms) 0 m.backend.journal := by
    simpa [hm] using h.stacked
  have hj := (Ending.takeBack_ok hb).2.1
  cases e with
  | commit =>
    have hc : Journal.Over base ms 0 b.journal := by
      rw [hj]
      exact hover.commit_last
    exact ⟨hc.below, hc.marks_eq⟩
  | revert =>
    have hr : b.journal = ⟨base, ms⟩ := hj.trans hover.revert_last
    exact ⟨congrArg Journal.entries hr, congrArg Journal.marks hr⟩

/-- **Taking a snapshot back never aborts** above another one, or above the nonce alone. -/
theorem Above.takeBack_ne_panic (e : Ending) (h : Above base (base.length :: ms) floor m)
    (hbase : ms = [] → isNonceOnly base) {p : Panic} : e.takeBack m.backend ≠ .panic p := by
  intro hp
  obtain ⟨top, hn, -, hmarks⟩ := h.stacked.marks
  have hstack : m.backend.stack = top ++ base.length :: ms := hmarks
  have hrun := e.takeBack_run m.backend
  simp only [hp, Outcome.Sat] at hrun
  rcases hrun with hnil | ⟨k, hk, -, hnonce⟩
  · simp [hstack] at hnil
  · -- the last snapshot is that of `base`
    rw [hstack] at hk
    cases top with
    | cons _ top => simp at hk
    | nil =>
      obtain ⟨rfl, rfl⟩ : base.length = k ∧ ms = [] := by simpa using hk
      have htake : m.backend.actions.take base.length = base :=
        (List.prefix_iff_eq_take.1 h.stacked.below).symm
      simp [htake, hbase rfl] at hnonce

variable [Platform] {O : CallEnv → Prop}

theorem Enter.above (h : Enter B c d O m frame child) (hc : Above base ms floor c) :
    Above base ms floor d := by
  have hm := h.ready.work.above hc
  refine h.work.above ⟨hm.floor_le.trans (Nat.le_succ _), ?_⟩
  have hlen : (frame :: m.parents).length - floor = m.parents.length - floor + 1 :=
    Nat.succ_sub hm.floor_le
  rw [hlen, journal_snapshot]
  exact hm.stacked.snapshot

/-- A frame that has just been entered is above its own snapshot. -/
theorem Enter.above_entered (h : Enter B c d O m frame child) :
    Above m.backend.actions (m.backend.actions.length :: m.backend.stack) (m.parents.length + 1)
      d :=
  h.work.above (above_self ⟨child, frame :: m.parents, m.backend.snapshot⟩)

theorem Leave.length (h : Leave B e c d m parent) : c.parents.length = d.parents.length + 1 := by
  rw [← h.work.parents, h.parents]
  rfl

/-- Leaving a frame that is higher up. -/
theorem Leave.above (h : Leave B e c d m parent) (hc : Above base ms floor c)
    (hd : floor ≤ d.parents.length) : Above base ms floor d := by
  have hm := (h.work.above hc).stacked
  have hlen : m.parents.length - floor = d.parents.length - floor + 1 := by
    rw [h.parents]
    simpa using Nat.succ_sub hd
  refine ⟨hd, ?_⟩
  rw [(Ending.takeBack_ok h.takeBack).2.1]
  rw [hlen] at hm
  cases e with
  | commit => exact hm.commit
  | revert => exact hm.revert

/-- **Moves above the snapshot stay above it.** -/
theorem Moved.above (h : Moved B e c O d) (hc : Above base ms floor c)
    (hd : floor ≤ d.parents.length) : Above base ms floor d := by
  cases h with
  | work h => exact h.above hc
  | enter h => exact h.above hc
  | leave h => exact h.above hc hd
  | pass h h' => exact h'.above (h.above hc) hd

/-- **Going below the floor** takes back one snapshot, and that is the last of `ms`. -/
theorem Moved.below (h : Moved B e c O d) (hc : Above base ms floor c)
    (hd : d.parents.length < floor) : ∃ m parent, Leave B e c d m parent ∧
      Above base ms floor m ∧ m.parents.length = floor := by
  have hfloor := hc.floor_le
  cases h with
  | work h => rw [h.parents] at hd; omega
  | enter h =>
    have hlen := congrArg List.length h.work.parents
    rw [h.ready.work.parents] at hlen
    simp only [List.length_cons] at hlen
    omega
  | leave h =>
    have hlen := h.length
    refine ⟨_, _, h, h.work.above hc, ?_⟩
    rw [h.work.parents]
    omega
  | pass h h' =>
    have hlen := h'.length
    have hu := congrArg List.length h.work.parents
    rw [h.ready.work.parents] at hu
    simp only [List.length_cons] at hu
    omega

/-- One step opens one child at most. -/
theorem Moved.length_le (h : Moved B e c O d) : d.parents.length ≤ c.parents.length + 1 := by
  cases h with
  | work h => rw [h.parents]; exact Nat.le_succ _
  | enter h => rw [h.work.parents, h.ready.work.parents]; rfl
  | leave h => have := h.length; omega
  | pass h h' =>
    have hlen := h'.length
    rw [h.work.parents, h.ready.work.parents] at hlen
    exact Nat.le_succ_of_le (Nat.le_of_succ_le_succ hlen.ge)

/-- **Going up** enters a child. -/
theorem Moved.entered (h : Moved B e c O d) (hlen : d.parents.length = c.parents.length + 1) :
    ∃ m frame child, Enter B c d O m frame child := by
  cases h with
  | work h => rw [h.parents] at hlen; omega
  | enter h => exact ⟨_, _, _, h⟩
  | leave h => have := h.length; omega
  | pass h h' =>
    have hlen' := h'.length
    have hu := congrArg List.length h.work.parents
    rw [h.ready.work.parents] at hu
    simp only [List.length_cons] at hu
    omega

end Chain

/-- **The first frame** stands above the snapshot of the origin's nonce. -/
theorem Machine.Fresh.above [Platform] {origin : Address} {m : Machine} {base b : ExecutorState}
    (h : Machine.Fresh B origin m base b) :
    Chain.Above [.evmIncrementNonce origin] [1] 0 ⟨m.frame.env, m.parents, b⟩ := by
  have hbase : Chain.Above [.evmIncrementNonce origin] [1] 0
      ⟨m.frame.env, [], base.snapshot⟩ := by
    have := Chain.above_self ⟨m.frame.env, [], base.snapshot⟩
    simpa [ExecutorState.snapshot, h.counted.actions, h.counted.grows.2, ExecutorState.new] using
      this
  have hwork : Chain.Work B ⟨m.frame.env, [], base.snapshot⟩ ⟨m.frame.env, m.parents, b⟩
      (Block B m.frame.env) := ⟨rfl, h.parents, h.work.1, h.work.2⟩
  exact hwork.above hbase

end NeonEvm
