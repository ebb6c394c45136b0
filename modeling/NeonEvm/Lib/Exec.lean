import Mathlib.Order.Defs.Unbundled

/-!
# Lib/Exec — computations that return, fail or abort

    x : Exec π ε σ α      x s = ok a t | err e t | panic p

A computation over a state `σ` that can *fail* with an error `ε`, keeping the state it had reached
(a method on a mutable reference that returns early), or *abort* with `π`, losing it (a panic).
`Triple` is the Hoare logic of these: one postcondition for a return, one for a failure, one for an
abort.
-/

namespace Exec

variable {π ε σ α β : Type}

/-- How a computation ends. -/
inductive Outcome (π ε σ α : Type) where
  | ok (a : α) (s : σ)
  | err (e : ε) (s : σ)
  | panic (p : π)
  deriving DecidableEq

end Exec

open Exec in
/-- A computation over `σ` that returns, fails with the state it reached, or aborts. -/
def Exec (π ε σ α : Type) : Type := σ → Outcome π ε σ α

namespace Exec

variable {π ε σ α β : Type}

/-- Run `f` on the value of a return; a failure or an abort ends the computation. -/
def Outcome.andThen (o : Outcome π ε σ α) (f : α → Exec π ε σ β) : Outcome π ε σ β :=
  match o with
  | .ok a s => f a s
  | .err e s => .err e s
  | .panic p => .panic p

instance : Monad (Exec π ε σ) where
  pure a := fun s => .ok a s
  bind x f := fun s => (x s).andThen f

/-- Fail with `e`, in the state reached. -/
def fail (e : ε) : Exec π ε σ α := fun s => .err e s

/-- Abort. -/
def abort (p : π) : Exec π ε σ α := fun _ => .panic p

/-- The state. -/
def get : Exec π ε σ σ := fun s => .ok s s

/-- A part of the state. -/
def gets (f : σ → α) : Exec π ε σ α := fun s => .ok (f s) s

/-- Change the state. -/
def modify (f : σ → σ) : Exec π ε σ Unit := fun s => .ok () (f s)

/-- A pure computation that may fail. -/
def ofExcept : Except ε α → Exec π ε σ α
  | .ok a => pure a
  | .error e => fail e

/-- A value that is there, or an abort. -/
def ofOption (p : π) : Option α → Exec π ε σ α
  | some a => pure a
  | none => abort p

/-- Fail with `e` unless `b`. -/
def require (b : Bool) (e : ε) : Exec π ε σ Unit := if b then pure () else fail e

/-- Fail with `e` if `b`. -/
def failIf (b : Bool) (e : ε) : Exec π ε σ Unit := if b then fail e else pure ()

/-- Abort unless `b`. -/
def assertThat (b : Bool) (p : π) : Exec π ε σ Unit := if b then pure () else abort p

/-! ## Running on a part of the state -/

/-- Run a computation over a part `τ` of the state, renaming its aborts. -/
def zoom {τ ρ : Type} (view : σ → τ) (put : σ → τ → σ) (ab : ρ → π) (x : Exec ρ ε τ α) :
    Exec π ε σ α := fun s =>
  match x (view s) with
  | .ok a t => .ok a (put s t)
  | .err e t => .err e (put s t)
  | .panic p => .panic (ab p)

/-- Run a computation that has no state. -/
def lift (x : Exec π ε Unit α) : Exec π ε σ α := zoom (fun _ => ()) (fun s _ => s) id x

/-- Run `x`; if it fails, go on with `h` from the state it had reached. -/
def recover (x : Exec π ε σ α) (h : ε → Exec π ε σ α) : Exec π ε σ α := fun s =>
  match x s with
  | .err e t => h e t
  | o => o

/-- Run `f` on every element, in order. -/
def forEach (f : β → Exec π ε σ α) : List β → Exec π ε σ (List α)
  | [] => pure []
  | b :: bs => do
    let a ← f b
    let as ← forEach f bs
    pure (a :: as)

/-- Run `f` on every element, in order, passing a value along. -/
def foldl (f : α → β → Exec π ε σ α) : α → List β → Exec π ε σ α
  | a, [] => pure a
  | a, b :: bs => do
    let a ← f a b
    foldl f a bs

/-! ## Reading a computation off -/

@[simp] theorem pure_run (a : α) (s : σ) : (pure a : Exec π ε σ α) s = .ok a s := rfl

@[simp] theorem bind_run (x : Exec π ε σ α) (f : α → Exec π ε σ β) (s : σ) :
    (x >>= f) s = (x s).andThen f := rfl

@[simp] theorem fail_run (e : ε) (s : σ) : (fail e : Exec π ε σ α) s = .err e s := rfl

@[simp] theorem abort_run (p : π) (s : σ) : (abort p : Exec π ε σ α) s = .panic p := rfl

@[simp] theorem get_run (s : σ) : (get : Exec π ε σ σ) s = .ok s s := rfl

@[simp] theorem gets_run (f : σ → α) (s : σ) : (gets f : Exec π ε σ α) s = .ok (f s) s := rfl

@[simp] theorem modify_run (f : σ → σ) (s : σ) :
    (modify f : Exec π ε σ Unit) s = .ok () (f s) := rfl

@[simp] theorem Outcome.ok_andThen (a : α) (s : σ) (f : α → Exec π ε σ β) :
    (Outcome.ok a s).andThen f = f a s := rfl

@[simp] theorem Outcome.err_andThen (e : ε) (s : σ) (f : α → Exec π ε σ β) :
    (Outcome.err e s : Outcome π ε σ α).andThen f = .err e s := rfl

@[simp] theorem Outcome.panic_andThen (p : π) (f : α → Exec π ε σ β) :
    (Outcome.panic p : Outcome π ε σ α).andThen f = .panic p := rfl

theorem Outcome.andThen_assoc {γ : Type} (o : Outcome π ε σ α) (f : α → Exec π ε σ β)
    (g : β → Exec π ε σ γ) :
    (o.andThen f).andThen g = o.andThen fun a => f a >>= g := by
  cases o <;> rfl

theorem bind_bind {γ : Type} (x : Exec π ε σ α) (f : α → Exec π ε σ β) (g : β → Exec π ε σ γ) :
    (x >>= f) >>= g = x >>= fun a => f a >>= g :=
  funext fun s => (x s).andThen_assoc f g

/-- **One computation on a part after another**, if the part is a lens. -/
theorem zoom_bind {τ ρ : Type} {view : σ → τ} {put : σ → τ → σ} {ab : ρ → π}
    (hview : ∀ s t, view (put s t) = t) (hput : ∀ s t u, put (put s t) u = put s u)
    (x : Exec ρ ε τ α) (f : α → Exec ρ ε τ β) :
    zoom view put ab (x >>= f) = zoom view put ab x >>= fun a => zoom view put ab (f a) := by
  funext s
  rw [bind_run]
  unfold zoom
  rw [bind_run]
  rcases x (view s) with ⟨a, t⟩ | ⟨e, t⟩ | p
  · change zoom view put ab (fun _ => f a t) s = zoom view put ab (f a) (put s t)
    unfold zoom
    rw [hview]
    rcases f a t with ⟨b, u⟩ | ⟨e, u⟩ | p
    · exact congrArg _ (hput s t u).symm
    · exact congrArg _ (hput s t u).symm
    · rfl
  · rfl
  · rfl

theorem require_eq {b : Bool} {e : ε} (h : b = true) :
    (require b e : Exec π ε σ Unit) = pure () := if_pos h

theorem require_eq_fail {b : Bool} {e : ε} (h : b = false) :
    (require b e : Exec π ε σ Unit) = fail e := if_neg (Bool.eq_false_iff.1 h)

@[simp] theorem require_true {e : ε} : (require true e : Exec π ε σ Unit) = pure () := rfl

/-- A test of what a computation returns. -/
def Outcome.okAnd (p : α → σ → Bool) : Outcome π ε σ α → Bool
  | .ok a s => p a s
  | _ => false

/-- **A sequence returns** when its parts do, one after the other. -/
theorem bind_eq_ok {x : Exec π ε σ α} {f : α → Exec π ε σ β} {s t : σ} {b : β} :
    (x >>= f) s = .ok b t ↔ ∃ a u, x s = .ok a u ∧ f a u = .ok b t := by
  rw [bind_run]
  rcases x s with ⟨a, u⟩ | ⟨e, u⟩ | p
  · exact ⟨fun h => ⟨a, u, rfl, h⟩, fun ⟨_, _, h, hf⟩ => by cases h; exact hf⟩
  · exact ⟨fun h => (nomatch h), fun ⟨_, _, h, _⟩ => (nomatch h)⟩
  · exact ⟨fun h => (nomatch h), fun ⟨_, _, h, _⟩ => (nomatch h)⟩

section Inversion

variable {s t : σ} {a a' : α} {u : Unit}

theorem pure_eq_ok : (pure a : Exec π ε σ α) s = .ok a' t ↔ a = a' ∧ s = t := by
  rw [pure_run, Outcome.ok.injEq]

theorem fail_eq_ok {e : ε} : (fail e : Exec π ε σ α) s = .ok a t ↔ False := by
  rw [fail_run]
  exact ⟨fun h => (nomatch h), False.elim⟩

theorem abort_eq_ok {p : π} : (abort p : Exec π ε σ α) s = .ok a t ↔ False := by
  rw [abort_run]
  exact ⟨fun h => (nomatch h), False.elim⟩

theorem get_eq_ok {r : σ} : (get : Exec π ε σ σ) s = .ok r t ↔ s = r ∧ s = t := by
  rw [get_run, Outcome.ok.injEq]

theorem gets_eq_ok {f : σ → α} : (gets f : Exec π ε σ α) s = .ok a t ↔ f s = a ∧ s = t := by
  rw [gets_run, Outcome.ok.injEq]

theorem modify_eq_ok {f : σ → σ} : (modify f : Exec π ε σ Unit) s = .ok u t ↔ f s = t := by
  rw [modify_run, Outcome.ok.injEq]
  exact and_iff_right rfl

theorem failIf_eq_ok {b : Bool} {e : ε} :
    (failIf b e : Exec π ε σ Unit) s = .ok u t ↔ b = false ∧ s = t := by
  cases b <;> simp [failIf]

theorem require_eq_ok {b : Bool} {e : ε} :
    (require b e : Exec π ε σ Unit) s = .ok u t ↔ b = true ∧ s = t := by
  cases b <;> simp [require]

theorem assertThat_eq_ok {b : Bool} {p : π} :
    (assertThat b p : Exec π ε σ Unit) s = .ok u t ↔ b = true ∧ s = t := by
  cases b <;> simp [assertThat]

theorem ofOption_eq_ok {p : π} {o : Option α} :
    (ofOption p o : Exec π ε σ α) s = .ok a t ↔ o = some a ∧ s = t := by
  cases o <;> simp [ofOption]

theorem ofExcept_eq_ok {r : Except ε α} :
    (ofExcept r : Exec π ε σ α) s = .ok a t ↔ r = .ok a ∧ s = t := by
  cases r <;> simp [ofExcept, fail]

/-- **A computation on a part** returns when it does there. -/
theorem zoom_eq_ok {τ ρ : Type} {view : σ → τ} {put : σ → τ → σ} {ab : ρ → π} {x : Exec ρ ε τ α} :
    zoom view put ab x s = .ok a t ↔ ∃ r, x (view s) = .ok a r ∧ put s r = t := by
  unfold zoom
  rcases x (view s) with ⟨b, r⟩ | ⟨e, r⟩ | p
  · simp only [Outcome.ok.injEq]
    exact ⟨fun ⟨ha, ht⟩ => ⟨r, ⟨ha, rfl⟩, ht⟩, fun ⟨_, ⟨ha, hr⟩, ht⟩ => ⟨ha, hr ▸ ht⟩⟩
  · simp
  · simp

theorem lift_eq_ok {x : Exec π ε Unit α} :
    (lift x : Exec π ε σ α) s = .ok a t ↔ x () = .ok a () ∧ s = t := by
  rw [lift, zoom_eq_ok]
  exact ⟨fun ⟨_, h, hst⟩ => ⟨h, hst⟩, fun ⟨h, hst⟩ => ⟨(), h, hst⟩⟩

end Inversion

theorem Outcome.exists_of_okAnd {p : α → σ → Bool} {o : Outcome π ε σ α} (h : o.okAnd p = true) :
    ∃ a s, o = .ok a s ∧ p a s = true := by
  cases o with
  | ok a s => exact ⟨a, s, rfl, h⟩
  | _ => cases h

/-! ## Hoare triples

`Triple P x Q E A`: started where `P` holds, `x` returns only into `Q`, fails only into `E` and
aborts only with `A`. -/

/-- What an outcome may be. -/
def Outcome.Sat (Q : α → σ → Prop) (E : ε → σ → Prop) (A : π → Prop) :
    Outcome π ε σ α → Prop
  | .ok a s => Q a s
  | .err e s => E e s
  | .panic p => A p

/-- The triple: from a state in `P`, the outcome satisfies the three postconditions. -/
def Triple (P : σ → Prop) (x : Exec π ε σ α) (Q : α → σ → Prop) (E : ε → σ → Prop)
    (A : π → Prop) : Prop := ∀ s, P s → (x s).Sat Q E A

section Rules

variable {P P' : σ → Prop} {Q Q' : α → σ → Prop} {E E' : ε → σ → Prop} {A A' : π → Prop}

theorem Outcome.Sat.imp {o : Outcome π ε σ α} (h : o.Sat Q E A) (hQ : ∀ a s, Q a s → Q' a s)
    (hE : ∀ e s, E e s → E' e s) (hA : ∀ p, A p → A' p) : o.Sat Q' E' A' := by
  cases o with
  | ok a s => exact hQ a s h
  | err e s => exact hE e s h
  | panic p => exact hA p h

/-- **Sequencing of outcomes** — what follows a return is started in its postcondition. -/
theorem Outcome.Sat.andThen {R : β → σ → Prop} {o : Outcome π ε σ α} {f : α → Exec π ε σ β}
    (h : o.Sat Q E A) (hf : ∀ a s, Q a s → (f a s).Sat R E A) : (o.andThen f).Sat R E A := by
  cases o with
  | ok a s => exact hf a s h
  | err e s => exact h
  | panic p => exact h

/-- Behind a requirement, it holds. -/
theorem sat_require_bind {b : Bool} {e : ε} {s : σ} {f : Unit → Exec π ε σ α} (he : b = false → E e s)
    (hf : b = true → (f () s).Sat Q E A) : ((require b e >>= f) s).Sat Q E A := by
  cases b with
  | false => exact he rfl
  | true => exact hf rfl

theorem Triple.pure {a : α} (h : ∀ s, P s → Q a s) :
    Triple P (pure a : Exec π ε σ α) Q E A := h

/-- **The rule of sequencing.** -/
theorem Triple.bind {R : β → σ → Prop} {x : Exec π ε σ α} {f : α → Exec π ε σ β}
    (hx : Triple P x Q E A) (hf : ∀ a, Triple (Q a) (f a) R E A) : Triple P (x >>= f) R E A :=
  fun s hs => (hx s hs).andThen fun a t ht => hf a t ht

/-- **The rule of consequence.** -/
theorem Triple.imp {x : Exec π ε σ α} (hx : Triple P x Q E A) (hP : ∀ s, P' s → P s)
    (hQ : ∀ a s, Q a s → Q' a s) (hE : ∀ e s, E e s → E' e s) (hA : ∀ p, A p → A' p) :
    Triple P' x Q' E' A' := fun s hs => (hx s (hP s hs)).imp hQ hE hA

end Rules

/-! ## Moves

`Moves R x`: whether `x` returns or fails, the state it leaves is related to the one it started
from.  For a preorder `R` this is closed under everything a program is built with. -/

/-- The outcome's state, if it has one, is `R`-related to `s`. -/
def Outcome.Within (R : σ → σ → Prop) (s : σ) (o : Outcome π ε σ α) : Prop :=
  o.Sat (fun _ t => R s t) (fun _ t => R s t) fun _ => True

/-- `x` moves the state along `R`. -/
def Moves (R : σ → σ → Prop) (x : Exec π ε σ α) : Prop := ∀ s, (x s).Within R s

section Moves

variable {R : σ → σ → Prop} {s t : σ}

theorem Outcome.Within.trans [IsTrans σ R] {o : Outcome π ε σ α} (hst : R s t)
    (h : o.Within R t) : o.Within R s :=
  h.imp (fun _ _ h => Trans.trans hst h) (fun _ _ h => Trans.trans hst h) fun _ h => h

theorem Moves.mono {R' : σ → σ → Prop} {x : Exec π ε σ α} (h : Moves R x)
    (hR : ∀ s t, R s t → R' s t) : Moves R' x := fun s =>
  (h s).imp (fun _ t h => hR s t h) (fun _ t h => hR s t h) fun _ h => h

/-- **Sequencing of moves.** -/
theorem moves_bind [IsTrans σ R] {x : Exec π ε σ α} {f : α → Exec π ε σ β} (hx : Moves R x)
    (hf : ∀ a, Moves R (f a)) : Moves R (x >>= f) := fun s =>
  (hx s).andThen fun a t ht => (hf a t).trans ht

theorem moves_modify {f : σ → σ} (h : ∀ s, R s (f s)) :
    Moves R (modify f : Exec π ε σ Unit) := h

@[simp] theorem moves_abort {p : π} : Moves R (abort p : Exec π ε σ α) := fun _ => trivial

theorem moves_ite {c : Prop} [Decidable c] {x y : Exec π ε σ α} (hx : c → Moves R x)
    (hy : ¬c → Moves R y) : Moves R (if c then x else y) := by
  split
  · exact hx ‹_›
  · exact hy ‹_›

variable [Std.Refl R]

@[simp] theorem moves_pure (a : α) : Moves R (pure a : Exec π ε σ α) := fun s => refl_of R s

@[simp] theorem moves_fail (e : ε) : Moves R (fail e : Exec π ε σ α) := fun s => refl_of R s

@[simp] theorem moves_get : Moves R (get : Exec π ε σ σ) := fun s => refl_of R s

@[simp] theorem moves_gets (f : σ → α) : Moves R (gets f : Exec π ε σ α) := fun s => refl_of R s

@[simp] theorem moves_ofExcept (r : Except ε α) : Moves R (ofExcept r : Exec π ε σ α) := by
  cases r with
  | ok a => exact moves_pure a
  | error e => exact moves_fail e

@[simp] theorem moves_ofOption (p : π) (o : Option α) :
    Moves R (ofOption p o : Exec π ε σ α) := by
  cases o with
  | none => exact moves_abort
  | some a => exact moves_pure a

@[simp] theorem moves_require (b : Bool) (e : ε) : Moves R (require b e : Exec π ε σ Unit) := by
  cases b with
  | false => exact moves_fail e
  | true => exact moves_pure ()

@[simp] theorem moves_failIf (b : Bool) (e : ε) : Moves R (failIf b e : Exec π ε σ Unit) := by
  cases b with
  | false => exact moves_pure ()
  | true => exact moves_fail e

@[simp] theorem moves_assertThat (b : Bool) (p : π) :
    Moves R (assertThat b p : Exec π ε σ Unit) := by
  cases b with
  | false => exact moves_abort
  | true => exact moves_pure ()

@[simp] theorem moves_lift (x : Exec π ε Unit α) : Moves R (lift x : Exec π ε σ α) := fun s => by
  unfold lift zoom
  cases x () with
  | ok a _ => exact refl_of R s
  | err e _ => exact refl_of R s
  | panic p => trivial

/-- Behind a guard that fails, the guard did not hold. -/
theorem moves_failIf_bind {b : Bool} {e : ε} {x : Exec π ε σ α} (hx : b = false → Moves R x) :
    Moves R (failIf b e >>= fun _ => x) := by
  cases b with
  | false => exact hx rfl
  | true => exact fun s => refl_of R s

/-- Behind a computation without state, its value is what it returned. -/
theorem moves_lift_bind {x : Exec π ε Unit α} {f : α → Exec π ε σ β}
    (hf : ∀ a, x () = .ok a () → Moves R (f a)) : Moves R (lift x >>= f) := fun s => by
  show Outcome.Within R s ((lift x s).andThen f)
  unfold lift zoom
  cases hx : x () with
  | ok a _ => exact hf a hx s
  | err e _ => exact refl_of R s
  | panic p => trivial

theorem moves_foldl [IsTrans σ R] {f : α → β → Exec π ε σ α} (hf : ∀ a b, Moves R (f a b))
    (a : α) (bs : List β) : Moves R (foldl f a bs) := by
  induction bs generalizing a with
  | nil => exact moves_pure a
  | cons b bs ih => exact moves_bind (hf a b) fun a => ih a

/-- The state that an outcome leaves is `t`. -/
def Outcome.Leaves (o : Outcome π ε σ α) (t : σ) : Prop := (∃ a, o = .ok a t) ∨ ∃ e, o = .err e t

omit [Std.Refl R] in
/-- What a computation leaves is where it has moved to. -/
theorem Moves.leaves {x : Exec π ε σ α} (hx : Moves R x) (h : (x s).Leaves t) : R s t := by
  have hs := hx s
  rcases h with ⟨a, h⟩ | ⟨e, h⟩
  · rwa [h] at hs
  · rwa [h] at hs

end Moves

/-! ## Returns

`Returns R x` is the same of a return alone. -/

/-- Where `x` returns, it has moved the state along `R`. -/
def Returns (R : σ → σ → Prop) (x : Exec π ε σ α) : Prop := ∀ s a t, x s = .ok a t → R s t

section Returns

variable {R : σ → σ → Prop}

theorem Moves.returns {x : Exec π ε σ α} (h : Moves R x) : Returns R x := fun s a t hx => by
  have hs := h s
  rwa [hx] at hs

/-- **Sequencing of returns.** -/
theorem returns_bind [IsTrans σ R] {x : Exec π ε σ α} {f : α → Exec π ε σ β} (hx : Returns R x)
    (hf : ∀ a, Returns R (f a)) : Returns R (x >>= f) := fun s b t h => by
  obtain ⟨a, u, hxs, hfu⟩ := bind_eq_ok.1 h
  exact Trans.trans (hx s a u hxs) (hf a u b t hfu)

theorem returns_ite {c : Prop} [Decidable c] {x y : Exec π ε σ α} (hx : c → Returns R x)
    (hy : ¬c → Returns R y) : Returns R (if c then x else y) := by
  split
  · exact hx ‹_›
  · exact hy ‹_›

theorem returns_foldl [Std.Refl R] [IsTrans σ R] {f : α → β → Exec π ε σ α}
    (hf : ∀ a b, Returns R (f a b)) (a : α) (bs : List β) : Returns R (foldl f a bs) := by
  induction bs generalizing a with
  | nil => exact fun s b t h => (pure_eq_ok.1 h).2 ▸ refl_of R s
  | cons b bs ih => exact returns_bind (hf a b) fun a => ih a

/-- **The rule of the loop**: an invariant of the part of the list that is done. -/
theorem foldl_invariant {I : List β → α → σ → Prop} {f : α → β → Exec π ε σ α} {bs : List β}
    {a a' : α} {s t : σ}
    (hstep : ∀ done b rest a s a' t, bs = done ++ b :: rest → I done a s → f a b s = .ok a' t →
      I (done ++ [b]) a' t)
    (h₀ : I [] a s) (h : foldl f a bs s = .ok a' t) : I bs a' t := by
  suffices hall : ∀ done rest a s, bs = done ++ rest → I done a s → foldl f a rest s = .ok a' t →
      I bs a' t from hall [] bs a s rfl h₀ h
  intro done rest
  induction rest generalizing done with
  | nil =>
    intro a s hbs hI h
    obtain ⟨rfl, rfl⟩ := pure_eq_ok.1 h
    rwa [hbs, List.append_nil]
  | cons b rest ih =>
    intro a s hbs hI h
    obtain ⟨c, u, hf, hrest⟩ := bind_eq_ok.1 h
    refine ih (done ++ [b]) c u ?_ (hstep done b rest a s c u hbs hI hf) hrest
    rwa [List.append_assoc, List.singleton_append]

/-- **A loop over two lists**, one behind the other. -/
theorem foldl_append (f : α → β → Exec π ε σ α) (a : α) (bs cs : List β) (s : σ) :
    foldl f a (bs ++ cs) s = (foldl f a bs s).andThen fun a => foldl f a cs := by
  induction bs generalizing a s with
  | nil => rfl
  | cons b bs ih =>
    show (f a b s).andThen _ = ((f a b s).andThen _).andThen _
    rcases f a b s with ⟨a', t⟩ | _ | _
    · exact ih a' t
    · rfl
    · rfl

/-- A loop over one more element. -/
theorem foldl_concat (f : α → β → Exec π ε σ α) (a : α) (bs : List β) (b : β) (s : σ) :
    foldl f a (bs ++ [b]) s = (foldl f a bs s).andThen fun a => f a b := by
  rw [foldl_append]
  refine congrArg _ (funext fun a' => funext fun t => ?_)
  show (f a' b t).andThen pure = f a' b t
  rcases f a' b t with _ | _ | _ <;> rfl

end Returns

/-! ## Two runs

`Alike R x y`: from related states `x` and `y` end alike, with the same value or error, in related
states. -/

section Alike

variable {τ : Type} {R : σ → τ → Prop}

/-- Two outcomes are the same but for their states, which are related. -/
def Outcome.Alike (R : σ → τ → Prop) : Outcome π ε σ α → Outcome π ε τ α → Prop
  | .ok a s, .ok b t => a = b ∧ R s t
  | .err e s, .err f t => e = f ∧ R s t
  | .panic p, .panic q => p = q
  | _, _ => False

/-- Two computations end alike from related states. -/
def Alike (R : σ → τ → Prop) (x : Exec π ε σ α) (y : Exec π ε τ α) : Prop :=
  ∀ s t, R s t → (x s).Alike R (y t)

theorem Outcome.Alike.mono {R' : σ → τ → Prop} {o : Outcome π ε σ α} {o' : Outcome π ε τ α}
    (h : o.Alike R o') (hR : ∀ s t, R s t → R' s t) : o.Alike R' o' := by
  cases o <;> cases o' <;> first | exact ⟨h.1, hR _ _ h.2⟩ | exact h

theorem Outcome.Alike.andThen {o : Outcome π ε σ α} {o' : Outcome π ε τ α}
    {f : α → Exec π ε σ β} {g : α → Exec π ε τ β} (h : o.Alike R o')
    (hf : ∀ a, Exec.Alike R (f a) (g a)) : (o.andThen f).Alike R (o'.andThen g) := by
  cases o <;> cases o' <;> first | exact h.elim | skip
  · obtain ⟨rfl, hst⟩ := h
    exact hf _ _ _ hst
  · exact h
  · exact h

/-- **Sequencing of two runs.** -/
theorem alike_bind {x : Exec π ε σ α} {y : Exec π ε τ α} {f : α → Exec π ε σ β}
    {g : α → Exec π ε τ β} (hx : Alike R x y) (hf : ∀ a, Alike R (f a) (g a)) :
    Alike R (x >>= f) (y >>= g) := fun s t h => (hx s t h).andThen hf

@[simp] theorem alike_pure (a : α) : Alike R (pure a : Exec π ε σ α) (pure a) :=
  fun _ _ h => ⟨rfl, h⟩

@[simp] theorem alike_fail (e : ε) : Alike R (fail e : Exec π ε σ α) (fail e) :=
  fun _ _ h => ⟨rfl, h⟩

@[simp] theorem alike_abort (p : π) : Alike R (abort p : Exec π ε σ α) (abort p) :=
  fun _ _ _ => rfl

theorem alike_gets {f : σ → α} {g : τ → α} (h : ∀ s t, R s t → f s = g t) :
    Alike R (gets f : Exec π ε σ α) (gets g) := fun s t hst => ⟨h s t hst, hst⟩

theorem alike_ite {c : Prop} [Decidable c] {x x' : Exec π ε σ α} {y y' : Exec π ε τ α}
    (hx : c → Alike R x y) (hx' : ¬c → Alike R x' y') :
    Alike R (if c then x else x') (if c then y else y') := by
  split
  · exact hx ‹_›
  · exact hx' ‹_›

@[simp] theorem alike_ofExcept (r : Except ε α) :
    Alike R (ofExcept r : Exec π ε σ α) (ofExcept r) := by
  cases r with
  | ok a => exact alike_pure a
  | error e => exact alike_fail e

@[simp] theorem alike_ofOption (p : π) (o : Option α) :
    Alike R (ofOption p o : Exec π ε σ α) (ofOption p o) := by
  cases o with
  | some a => exact alike_pure a
  | none => exact alike_abort p

@[simp] theorem alike_failIf (b : Bool) (e : ε) :
    Alike R (failIf b e : Exec π ε σ Unit) (failIf b e) := by
  cases b with
  | false => exact alike_pure ()
  | true => exact alike_fail e

theorem alike_foldl {f : α → β → Exec π ε σ α} {g : α → β → Exec π ε τ α}
    (h : ∀ a b, Alike R (f a b) (g a b)) (a : α) (bs : List β) :
    Alike R (foldl f a bs) (foldl g a bs) := by
  induction bs generalizing a with
  | nil => exact alike_pure a
  | cons b bs ih => exact alike_bind (h a b) fun a => ih a

end Alike

/-! ## Results without a state -/

theorem except_bind_eq_ok {x : Except ε α} {f : α → Except ε β} {b : β} :
    x >>= f = .ok b ↔ ∃ a, x = .ok a ∧ f a = .ok b := by
  rcases x with e | a
  · refine ⟨fun h => ?_, fun ⟨_, h, _⟩ => absurd h (by simp)⟩
    cases h
  · refine ⟨fun h => ⟨a, rfl, h⟩, fun ⟨a', h, hb⟩ => ?_⟩
    obtain rfl := Except.ok.inj h
    exact hb

end Exec
