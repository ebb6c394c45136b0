import Mathlib.Data.Set.Basic
import Mathlib.Logic.Relation

/-!
# Lib/Leases — locked keys, and those who claim them

    take     free keys ▸ locked, and claimed by the one that takes them
    drop     what one claims ▸ free

Several owners work on values under keys, one step at a time.  A step takes keys that are free, or
gives all of its own back; it changes no value that another one claims.  Where locks and claims
agree at first they always do, and what one claims is its own until it takes its next step.
-/

/-- Which keys are locked, which of them each owner claims, and what is under them. -/
structure Leases (κ σ β : Type) where
  locked : Set κ
  claims : σ → Set κ
  value : κ → β

namespace Leases

variable {κ σ β : Type}

/-- **Every lock has one owner**, and every claim is a lock. -/
structure Exclusive (T : Leases κ σ β) : Prop where
  locked : ∀ {k}, k ∈ T.locked ↔ ∃ s, k ∈ T.claims s
  unique : ∀ {k s t}, k ∈ T.claims s → k ∈ T.claims t → s = t

/-- What a step of `s` does to the others: nothing. -/
structure Respects (s : σ) (T T' : Leases κ σ β) : Prop where
  claims : ∀ {t}, t ≠ s → T'.claims t = T.claims t
  value : ∀ {t k}, t ≠ s → k ∈ T.claims t → T'.value k = T.value k

/-- A step of `s`. -/
inductive Step (s : σ) (T T' : Leases κ σ β) : Prop
  | take (ks : Set κ) (free : ∀ k ∈ ks, k ∉ T.locked) (locked : T'.locked = T.locked ∪ ks)
      (claims : T'.claims s = T.claims s ∪ ks) (respects : Respects s T T')
  | drop (locked : T'.locked = T.locked \ T.claims s) (claims : T'.claims s = ∅)
      (respects : Respects s T T')

variable {T T' : Leases κ σ β} {s t : σ} {k : κ}

theorem Step.respects (h : Step s T T') : Respects s T T' := by
  rcases h with ⟨_, -, -, -, h⟩ | ⟨-, -, h⟩
  · exact h
  · exact h

theorem Exclusive.isLocked (hT : T.Exclusive) (hk : k ∈ T.claims s) : k ∈ T.locked :=
  hT.locked.2 ⟨s, hk⟩

/-- **Taking keeps the locks exclusive** — what is taken was free, so nobody claimed it. -/
theorem Exclusive.take (hT : T.Exclusive) {ks : Set κ} (free : ∀ k ∈ ks, k ∉ T.locked)
    (locked : T'.locked = T.locked ∪ ks) (claims : T'.claims s = T.claims s ∪ ks)
    (respects : Respects s T T') : T'.Exclusive := by
  have owner : ∀ {k t}, k ∈ T'.claims t → k ∈ T.claims t ∨ t = s ∧ k ∈ ks := by
    intro k t hk
    by_cases ht : t = s
    · rw [ht, claims] at hk
      exact hk.imp (fun hk => ht ▸ hk) fun hk => ⟨ht, hk⟩
    · exact .inl (respects.claims ht ▸ hk)
  have keep : ∀ {k t}, k ∈ T.claims t → k ∈ T'.claims t := by
    intro k t hk
    by_cases ht : t = s
    · rw [ht] at hk ⊢
      exact claims ▸ .inl hk
    · exact (respects.claims ht).symm ▸ hk
  refine ⟨fun {k} => ?_, fun {k t u} ht hu => ?_⟩
  · rw [locked, Set.mem_union, hT.locked]
    constructor
    · rintro (⟨t, hk⟩ | hk)
      · exact ⟨t, keep hk⟩
      · exact ⟨s, claims ▸ .inr hk⟩
    · rintro ⟨t, hk⟩
      exact (owner hk).imp (fun hk => ⟨t, hk⟩) And.right
  · rcases owner ht with ht | ⟨rfl, hk⟩
    · rcases owner hu with hu | ⟨rfl, hk⟩
      · exact hT.unique ht hu
      · exact (free k hk (hT.isLocked ht)).elim
    · rcases owner hu with hu | ⟨rfl, -⟩
      · exact (free k hk (hT.isLocked hu)).elim
      · rfl

/-- **Dropping keeps the locks exclusive** — the others claim nothing of it. -/
theorem Exclusive.drop (hT : T.Exclusive) (locked : T'.locked = T.locked \ T.claims s)
    (claims : T'.claims s = ∅) (respects : Respects s T T') : T'.Exclusive := by
  have owner : ∀ {k t}, k ∈ T'.claims t ↔ k ∈ T.claims t ∧ t ≠ s := by
    intro k t
    by_cases ht : t = s
    · rw [ht, claims]
      exact ⟨fun hk => hk.elim, fun hk => (hk.2 rfl).elim⟩
    · rw [respects.claims ht]
      exact (and_iff_left ht).symm
  refine ⟨fun {k} => ?_, fun ht hu => hT.unique (owner.1 ht).1 (owner.1 hu).1⟩
  rw [locked, Set.mem_sdiff, hT.locked]
  constructor
  · rintro ⟨⟨t, ht⟩, hs⟩
    exact ⟨t, owner.2 ⟨ht, fun h => hs (h ▸ ht)⟩⟩
  · rintro ⟨t, ht⟩
    obtain ⟨ht, hne⟩ := owner.1 ht
    exact ⟨⟨t, ht⟩, fun hs => hne (hT.unique ht hs)⟩

/-- **A step keeps the locks exclusive.** -/
theorem Exclusive.step (hT : T.Exclusive) (h : Step s T T') : T'.Exclusive := by
  rcases h with ⟨ks, free, locked, claims, respects⟩ | ⟨locked, claims, respects⟩
  · exact hT.take free locked claims respects
  · exact hT.drop locked claims respects

/-! ## Runs -/

/-- **While others work** — what one claims, it still claims, and the values are its own. -/
theorem Respects.run (h : Relation.ReflTransGen (fun T T' => ∃ s, s ≠ t ∧ Respects s T T') T T') :
    T'.claims t = T.claims t ∧ ∀ k ∈ T.claims t, T'.value k = T.value k := by
  induction h with
  | refl => exact ⟨rfl, fun _ _ => rfl⟩
  | tail _ hstep ih =>
    obtain ⟨hclaims, hvalue⟩ := ih
    obtain ⟨s, hs, hrespects⟩ := hstep
    refine ⟨(hrespects.claims hs.symm).trans hclaims, fun k hk => ?_⟩
    rw [hrespects.value hs.symm (hclaims ▸ hk), hvalue k hk]

end Leases
