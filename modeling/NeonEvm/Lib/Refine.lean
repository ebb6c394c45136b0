import NeonEvm.Lib.Exec

/-!
# Lib/Refine — one computation as another over a different state

    R s t  →  x s, y t  both return the same into R, or both fail with the same into R

The states are related, the values and the errors are equal, and neither side aborts.  The rules
follow the way computations are built; a step lemma for each operation gives every sequence of
operations.
-/

namespace Exec

variable {π ρ ε σ τ α β ι : Type} {R : σ → τ → Prop}

/-- The two outcomes are one, up to the relation. -/
inductive Outcome.Agrees (R : σ → τ → Prop) : Outcome π ε σ α → Outcome ρ ε τ α → Prop
  | ok {a : α} {s : σ} {t : τ} (h : R s t) : Agrees R (.ok a s) (.ok a t)
  | err {e : ε} {s : σ} {t : τ} (h : R s t) : Agrees R (.err e s) (.err e t)

/-- `x` is `y`, over states that are related. -/
def Refines (R : σ → τ → Prop) (x : Exec π ε σ α) (y : Exec ρ ε τ α) : Prop :=
  ∀ s t, R s t → (x s).Agrees R (y t)

/-- **The same failures.** -/
theorem Outcome.Agrees.err_iff {o : Outcome π ε σ α} {p : Outcome ρ ε τ α} (h : o.Agrees R p)
    {e : ε} : (∃ s, o = .err e s) ↔ ∃ t, p = .err e t := by
  cases h with
  | ok _ => constructor <;> rintro ⟨_, h⟩ <;> cases h
  | @err e' s t _ =>
    constructor <;> rintro ⟨_, h⟩ <;> cases h
    · exact ⟨t, rfl⟩
    · exact ⟨s, rfl⟩

/-- **The same returns.** -/
theorem Outcome.Agrees.exists_ok {o : Outcome π ε σ α} {p : Outcome ρ ε τ α} (h : o.Agrees R p)
    {a : α} {t : τ} (hp : p = .ok a t) : ∃ s, o = .ok a s ∧ R s t := by
  cases h with
  | @ok _ s _ hR =>
    obtain ⟨rfl, rfl⟩ := Outcome.ok.inj hp
    exact ⟨s, rfl, hR⟩
  | err _ => cases hp

/-! ## The rules -/

theorem Outcome.Agrees.andThen {o : Outcome π ε σ α} {p : Outcome ρ ε τ α}
    {f : α → Exec π ε σ β} {g : α → Exec ρ ε τ β} (h : o.Agrees R p)
    (hf : ∀ a, Refines R (f a) (g a)) : (o.andThen f).Agrees R (p.andThen g) := by
  cases h with
  | ok hR => exact hf _ _ _ hR
  | err hR => exact .err hR

theorem refines_pure (a : α) : Refines R (pure a : Exec π ε σ α) (pure a : Exec ρ ε τ α) :=
  fun _ _ h => .ok h

/-- **Sequencing.** -/
theorem refines_bind {x : Exec π ε σ α} {y : Exec ρ ε τ α} {f : α → Exec π ε σ β}
    {g : α → Exec ρ ε τ β} (h : Refines R x y) (hf : ∀ a, Refines R (f a) (g a)) :
    Refines R (x >>= f) (y >>= g) := fun s t hR => (h s t hR).andThen hf

/-! ## Sequences of operations -/

/-- Run one operation after another, going on behind a failure; nothing if one aborts. -/
def attempts (f : ι → Exec π ε σ α) : List ι → σ → Option (List (Except ε α) × σ)
  | [], s => some ([], s)
  | i :: is, s =>
    match f i s with
    | .ok a t => (attempts f is t).map fun r => (.ok a :: r.1, r.2)
    | .err e t => (attempts f is t).map fun r => (.error e :: r.1, r.2)
    | .panic _ => none

/-- **From one operation to all sequences**: the same results, and related states at the end. -/
theorem attempts_refine {f : ι → Exec π ε σ α} {g : ι → Exec ρ ε τ α}
    (h : ∀ i, Refines R (f i) (g i)) (is : List ι) {s : σ} {t : τ} (hR : R s t) :
    ∃ results s' t', attempts f is s = some (results, s') ∧ attempts g is t = some (results, t') ∧
      R s' t' := by
  induction is generalizing s t with
  | nil => exact ⟨[], s, t, rfl, rfl, hR⟩
  | cons i is ih =>
    have hstep := h i s t hR
    rw [attempts, attempts]
    generalize f i s = o at hstep
    generalize g i t = p at hstep
    cases hstep with
    | @ok a s' t' hR' =>
      obtain ⟨results, s'', t'', hfs, hgs, hR''⟩ := ih hR'
      exact ⟨.ok a :: results, s'', t'', congrArg (Option.map _) hfs, congrArg (Option.map _) hgs,
        hR''⟩
    | @err e s' t' hR' =>
      obtain ⟨results, s'', t'', hfs, hgs, hR''⟩ := ih hR'
      exact ⟨.error e :: results, s'', t'', congrArg (Option.map _) hfs,
        congrArg (Option.map _) hgs, hR''⟩

end Exec
