import NeonEvm.Lib.Exec

/-!
# Lib/Survive — what a computation needs in order not to abort

    (x >>= f) s survives into Q  ↔  x s survives into (f · · survives into Q)

The weakest precondition of a computation that may return or fail, but not abort.  It is computed from
the end of a program to its beginning, one rule for each construct.
-/

namespace Exec

variable {π ε σ α β : Type} {Q R : α → σ → Prop} {s : σ}

/-- The outcome is no abort, and a return is in `Q`. -/
def Outcome.Survives (Q : α → σ → Prop) (o : Outcome π ε σ α) : Prop :=
  o.Sat Q (fun _ _ => True) fun _ => False

/-- A computation that never aborts, whatever it is started from. -/
def Calm (x : Exec π ε σ α) : Prop := ∀ s, (x s).Survives fun _ _ => True

theorem Outcome.survives_iff {o : Outcome π ε σ α} :
    o.Survives (fun _ _ => True) ↔ ∀ p, o ≠ .panic p := by
  rcases o with ⟨a, s⟩ | ⟨e, s⟩ | p
  · exact ⟨fun _ _ h => (nomatch h), fun _ => trivial⟩
  · exact ⟨fun _ _ h => (nomatch h), fun _ => trivial⟩
  · exact ⟨False.elim, fun h => h p rfl⟩

theorem Outcome.Survives.imp {o : Outcome π ε σ α} (h : o.Survives Q) (hQ : ∀ a s, Q a s → R a s) :
    o.Survives R :=
  Outcome.Sat.imp h hQ (fun _ _ => id) fun _ => id

/-! ## The rules -/

theorem survives_bind {x : Exec π ε σ α} {f : α → Exec π ε σ β} {Q : β → σ → Prop} :
    ((x >>= f) s).Survives Q ↔ (x s).Survives fun a t => (f a t).Survives Q := by
  rw [bind_run]
  rcases x s with ⟨a, t⟩ | ⟨e, t⟩ | p
  · exact Iff.rfl
  · exact Iff.rfl
  · exact Iff.rfl

theorem survives_pure {a : α} : ((pure a : Exec π ε σ α) s).Survives Q ↔ Q a s := Iff.rfl

theorem survives_fail {e : ε} : ((fail e : Exec π ε σ α) s).Survives Q ↔ True := Iff.rfl

theorem survives_abort {p : π} : ((abort p : Exec π ε σ α) s).Survives Q ↔ False := Iff.rfl

theorem survives_get {Q : σ → σ → Prop} :
    ((get : Exec π ε σ σ) s).Survives Q ↔ Q s s := Iff.rfl

theorem survives_require {b : Bool} {e : ε} {Q : Unit → σ → Prop} :
    ((require b e : Exec π ε σ Unit) s).Survives Q ↔ (b = true → Q () s) := by
  cases b
  · exact ⟨fun _ h => absurd h Bool.false_ne_true, fun _ => trivial⟩
  · exact ⟨fun h _ => h, fun h => h rfl⟩

theorem survives_failIf {b : Bool} {e : ε} {Q : Unit → σ → Prop} :
    ((failIf b e : Exec π ε σ Unit) s).Survives Q ↔ (b = false → Q () s) := by
  cases b
  · exact ⟨fun h _ => h, fun h => h rfl⟩
  · exact ⟨fun _ h => absurd h.symm Bool.false_ne_true, fun _ => trivial⟩

theorem survives_lift {x : Exec π ε Unit α} :
    ((lift x : Exec π ε σ α) s).Survives Q ↔ (x ()).Survives fun a _ => Q a s := by
  rw [lift, zoom]
  rcases x () with ⟨a, t⟩ | ⟨e, t⟩ | p
  · exact Iff.rfl
  · exact Iff.rfl
  · exact Iff.rfl

theorem survives_ofOption {p : π} {o : Option α} :
    ((ofOption p o : Exec π ε σ α) s).Survives Q ↔ ∃ a, o = some a ∧ Q a s := by
  cases o with
  | none => exact ⟨False.elim, fun ⟨_, h, _⟩ => (nomatch h)⟩
  | some a => exact ⟨fun h => ⟨a, rfl, h⟩, fun ⟨b, h, hQ⟩ => Option.some.inj h ▸ hQ⟩

/-! ## Computations that never abort -/

theorem calm_pure (a : α) : Calm (pure a : Exec π ε σ α) := fun _ => trivial

theorem calm_fail (e : ε) : Calm (fail e : Exec π ε σ α) := fun _ => trivial

theorem calm_modify (f : σ → σ) : Calm (modify f : Exec π ε σ Unit) := fun _ => trivial

theorem calm_failIf (b : Bool) (e : ε) : Calm (failIf b e : Exec π ε σ Unit) := fun _ =>
  survives_failIf.2 fun _ => trivial

theorem calm_bind {x : Exec π ε σ α} {f : α → Exec π ε σ β} (hx : Calm x) (hf : ∀ a, Calm (f a)) :
    Calm (x >>= f) := fun s => survives_bind.2 ((hx s).imp fun a t _ => hf a t)

theorem calm_ite {c : Prop} [Decidable c] {x y : Exec π ε σ α} (hx : Calm x) (hy : Calm y) :
    Calm (if c then x else y) := by
  split
  · exact hx
  · exact hy

theorem calm_lift {x : Exec π ε Unit α} (hx : Calm x) : Calm (lift x : Exec π ε σ α) := fun _ =>
  survives_lift.2 (hx ())

/-- **Before what never aborts** nothing more is needed. -/
theorem survives_bind_calm {x : Exec π ε σ α} {f : α → Exec π ε σ β} (hf : ∀ a, Calm (f a)) :
    ((x >>= f) s).Survives (fun _ _ => True) ↔ (x s).Survives fun _ _ => True := by
  rw [survives_bind]
  exact ⟨fun h => h.imp fun _ _ _ => trivial, fun h => h.imp fun a t _ => hf a t⟩

end Exec
