import Mathlib.Data.Set.Card

/-!
# Lib/Flow — typing the nodes that control reaches

    f entry = label        f q = after p (f p)   for q ∈ next p        fits p (f p)

A flow graph with a label on every node, as a validator of code wants it.  One assignment of labels
to the nodes that are reached exists exactly if every label that control arrives with fits, and no
two of them at one node differ.
-/

/-- A flow graph: its nodes go on to others while they are `inside`, and change the label. -/
structure FlowGraph (ν ℓ : Type) where
  entry : ν
  label : ℓ
  inside : ν → Prop
  next : ν → List ν
  after : ν → ℓ → ℓ
  fits : ν → ℓ → Prop

namespace FlowGraph

variable {ν ℓ : Type} (F : FlowGraph ν ℓ)

/-- Control reaches a node. -/
inductive Reachable : ν → Prop where
  | entry : Reachable F.entry
  | step {p q : ν} (hp : Reachable p) (hin : F.inside p) (hq : q ∈ F.next p) : Reachable q

/-- Control reaches a node with a label. -/
inductive Reach : ν → ℓ → Prop where
  | entry : Reach F.entry F.label
  | step {p q : ν} {h : ℓ} (hp : Reach p h) (hin : F.inside p) (hq : q ∈ F.next p) :
    Reach q (F.after p h)

/-- An assignment of labels to the nodes that are reached. -/
structure Typing (f : ν → ℓ) : Prop where
  entry : F.inside F.entry → f F.entry = F.label
  fits : ∀ {p}, F.Reachable p → F.inside p → F.fits p (f p)
  flow : ∀ {p q}, F.Reachable p → F.inside p → q ∈ F.next p → F.inside q → f q = F.after p (f p)

/-- Every label fits, and there is one at a node. -/
structure Coherent : Prop where
  fits : ∀ {p h}, F.Reach p h → F.inside p → F.fits p h
  unique : ∀ {p h h'}, F.Reach p h → F.Reach p h' → F.inside p → h = h'

variable {F} {p : ν} {h : ℓ} {f : ν → ℓ}

theorem Reach.reachable (hp : F.Reach p h) : F.Reachable p := by
  induction hp with
  | entry => exact .entry
  | step _ hin hq ih => exact .step ih hin hq

theorem reachable_iff : F.Reachable p ↔ ∃ h, F.Reach p h := by
  refine ⟨fun hp => ?_, fun ⟨h, hp⟩ => hp.reachable⟩
  induction hp with
  | entry => exact ⟨_, .entry⟩
  | step _ hin hq ih =>
    obtain ⟨h, hp⟩ := ih
    exact ⟨_, .step hp hin hq⟩

/-- **A typing** gives the labels that control arrives with. -/
theorem Typing.eq (hf : F.Typing f) (hp : F.Reach p h) (hin : F.inside p) : h = f p := by
  induction hp with
  | entry => exact (hf.entry hin).symm
  | step hp hin' hq ih => rw [ih hin', hf.flow hp.reachable hin' hq hin]

/-- **Labels can be assigned** exactly if the ones that arrive fit and agree. -/
theorem exists_typing_iff [Inhabited ℓ] : (∃ f, F.Typing f) ↔ F.Coherent := by
  classical
  constructor
  · rintro ⟨f, hf⟩
    exact ⟨fun hp hin => hf.eq hp hin ▸ hf.fits hp.reachable hin,
      fun hp hp' hin => (hf.eq hp hin).trans (hf.eq hp' hin).symm⟩
  · intro hF
    let f : ν → ℓ := fun p => if h : ∃ h, F.Reach p h then h.choose else default
    have hf : ∀ {p h}, F.Reach p h → F.inside p → f p = h := by
      intro p h hp hin
      have hex : ∃ h, F.Reach p h := ⟨h, hp⟩
      show (if h : ∃ h, F.Reach p h then h.choose else default) = h
      rw [dif_pos hex]
      exact hF.unique hex.choose_spec hp hin
    refine ⟨f, fun hin => hf .entry hin, fun hp hin => ?_, fun hp hin hq hin' => ?_⟩
    · obtain ⟨h, hp⟩ := reachable_iff.1 hp
      exact hf hp hin ▸ hF.fits hp hin
    · obtain ⟨h, hp⟩ := reachable_iff.1 hp
      rw [hf hp hin]
      exact hf (.step hp hin hq) hin'

/-- **What is closed** under the flow holds of every label that arrives inside. -/
theorem Reach.of_closed {R : ν → ℓ → Prop} (hentry : F.inside F.entry → R F.entry F.label)
    (hstep : ∀ {p h q}, R p h → F.inside p → q ∈ F.next p → F.inside q → R q (F.after p h))
    (hp : F.Reach p h) (hin : F.inside p) : R p h := by
  induction hp with
  | entry => exact hentry hin
  | step hp hin' hq ih => exact hstep (ih hin') hin' hq hin

end FlowGraph
