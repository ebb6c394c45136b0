import Mathlib.Data.List.Infix
import Mathlib.Data.List.Nodup

/-!
# Lib/Redeem — a key is redeemed at most once, over nested snapshots

    log     … reserve k … redeem k …        layer   a mark, and the key it is open for

    open    a fresh key is reserved at the mark of its layer
    close   the layer of a key redeems it, and is gone
    cut     the log goes back to the mark of a layer, and its key is fresh again

What makes it so is `Held`: the key of an open layer was reserved at its mark, and no other layer is
open for it.
-/

/-- How the entries of a log reserve keys, and redeem them. -/
structure Redeem (α κ : Type) where
  reserve : α → Option κ
  redeem : α → Option κ

namespace Redeem

variable {α κ : Type} (R : Redeem α κ)

/-- The keys that a log reserves. -/
def reserved (log : List α) : List κ := log.filterMap R.reserve

/-- The keys that a log redeems. -/
def redeemed (log : List α) : List κ := log.filterMap R.redeem

/-- A mark in a log, and the key that is reserved there. -/
structure Layer (κ : Type) where
  key : Option κ
  mark : ℕ

/-- **A log in order** — no key is redeemed twice, before it is reserved, or if it was not free. -/
structure Orderly (free : κ → Prop) (log : List α) : Prop where
  nodup : (R.redeemed log).Nodup
  vacant : ∀ k ∈ R.redeemed log, free k
  before : ∀ n, ∀ k ∈ R.redeemed (log.take n), k ∈ R.reserved (log.take n)

/-- **The layers over a log**, the last one first. -/
structure Held (free : κ → Prop) (layers : List (Layer κ)) (log : List α) : Prop where
  marked : ∀ l ∈ layers, l.mark ≤ log.length
  reserves : ∀ l ∈ layers, ∀ k, l.key = some k →
    free k ∧ k ∉ R.redeemed log ∧ log[l.mark]?.bind R.reserve = some k
  apart : layers.Pairwise fun g f =>
    f.mark ≤ g.mark ∧ ∀ k, f.key = some k → f.mark < g.mark ∧ g.key ≠ some k

variable {R} {free : κ → Prop} {log as : List α} {a : α} {k : κ} {l : Layer κ}
  {layers : List (Layer κ)}

@[simp] theorem redeemed_append (log as : List α) :
    R.redeemed (log ++ as) = R.redeemed log ++ R.redeemed as := List.filterMap_append

@[simp] theorem reserved_append (log as : List α) :
    R.reserved (log ++ as) = R.reserved log ++ R.reserved as := List.filterMap_append

theorem mem_redeemed_of_take {n : ℕ} (h : k ∈ R.redeemed (log.take n)) : k ∈ R.redeemed log :=
  ((List.take_sublist n log).filterMap R.redeem).subset h

theorem redeemed_take_eq_nil (h : R.redeemed as = []) (n : ℕ) : R.redeemed (as.take n) = [] :=
  List.sublist_nil.1 (h ▸ (List.take_sublist n as).filterMap R.redeem)

theorem mem_reserved_of_getElem? {n : ℕ} (h : log[n]?.bind R.reserve = some k) :
    k ∈ R.reserved log := by
  obtain ⟨a, ha, hk⟩ := Option.bind_eq_some_iff.1 h
  exact List.mem_filterMap.2 ⟨a, List.mem_of_getElem? ha, hk⟩

/-! ## Logs in order -/

theorem orderly_nil : R.Orderly free [] :=
  ⟨List.nodup_nil, fun _ h => (List.not_mem_nil h).elim, fun n _ h => by
    rw [List.take_nil] at h
    exact (List.not_mem_nil h).elim⟩

/-- **A log that is cut** stays in order. -/
theorem Orderly.take (h : R.Orderly free log) (n : ℕ) : R.Orderly free (log.take n) where
  nodup := h.nodup.sublist ((List.take_sublist n log).filterMap R.redeem)
  vacant k hk := h.vacant k (mem_redeemed_of_take hk)
  before m k hk := by
    rw [List.take_take] at hk ⊢
    exact h.before _ k hk

/-- **Entries that redeem nothing.** -/
theorem Orderly.append (h : R.Orderly free log) (has : R.redeemed as = []) :
    R.Orderly free (log ++ as) := by
  refine ⟨?_, fun k hk => h.vacant k ?_, fun n k hk => ?_⟩
  · rw [redeemed_append, has, List.append_nil]
    exact h.nodup
  · rwa [redeemed_append, has, List.append_nil] at hk
  · rw [List.take_append, redeemed_append, redeemed_take_eq_nil has, List.append_nil] at hk
    rw [List.take_append, reserved_append]
    exact List.mem_append_left _ (h.before n k hk)

/-- A key that is redeemed was reserved. -/
theorem Orderly.mem_reserved (h : R.Orderly free log) (hk : k ∈ R.redeemed log) :
    k ∈ R.reserved log := by
  have := h.before log.length k
  rw [List.take_length] at this
  exact this hk

/-- **One more key.** -/
theorem Orderly.redeem (h : R.Orderly free log) (ha : R.redeem a = some k) (hfree : free k)
    (hnew : k ∉ R.redeemed log) (hres : k ∈ R.reserved log) : R.Orderly free (log ++ [a]) := by
  have hone : R.redeemed [a] = [k] := List.filterMap_cons_some ha
  refine ⟨?_, fun k' hk => ?_, fun n k' hk => ?_⟩
  · rw [redeemed_append, hone, List.nodup_append]
    refine ⟨h.nodup, List.nodup_singleton k, fun k₁ h₁ k₂ h₂ => ?_⟩
    rw [List.mem_singleton.1 h₂]
    exact fun heq => hnew (heq ▸ h₁)
  · rw [redeemed_append, hone, List.mem_append, List.mem_singleton] at hk
    exact hk.elim (h.vacant k') fun hk => hk ▸ hfree
  · rcases Nat.lt_or_ge log.length n with hn | hn
    · rw [List.take_of_length_le (by rw [List.length_append]; exact hn)] at hk ⊢
      rw [redeemed_append, hone, List.mem_append, List.mem_singleton] at hk
      rw [reserved_append]
      exact List.mem_append_left _ (hk.elim h.mem_reserved fun hk => hk ▸ hres)
    · rw [List.take_append_of_le_length hn] at hk ⊢
      exact h.before n k' hk

/-! ## Layers -/

/-- **The first layer**, over a log that redeems nothing. -/
theorem Held.one (hmark : l.mark ≤ log.length) (hlog : R.redeemed log = [])
    (hkey : ∀ k, l.key = some k → free k ∧ log[l.mark]?.bind R.reserve = some k) :
    R.Held free [l] log where
  marked f hf := List.mem_singleton.1 hf ▸ hmark
  reserves f hf k hk := by
    obtain rfl := List.mem_singleton.1 hf
    obtain ⟨hfree, hres⟩ := hkey k hk
    exact ⟨hfree, hlog ▸ List.not_mem_nil, hres⟩
  apart := List.pairwise_singleton _ _

theorem Held.append (h : R.Held free layers log) (has : R.redeemed as = []) :
    R.Held free layers (log ++ as) where
  marked l hl := (h.marked l hl).trans (by rw [List.length_append]; exact Nat.le_add_right _ _)
  reserves l hl k hk := by
    obtain ⟨hfree, hnew, hres⟩ := h.reserves l hl k hk
    obtain ⟨a, ha, -⟩ := Option.bind_eq_some_iff.1 hres
    rw [redeemed_append, has, List.append_nil,
      List.getElem?_append_left (List.getElem?_eq_some_iff.1 ha).1]
    exact ⟨hfree, hnew, hres⟩
  apart := h.apart

/-- **A layer that is given up**, its entries kept. -/
theorem Held.tail (h : R.Held free (l :: layers) log) : R.Held free layers log where
  marked l hl := h.marked l (List.mem_cons_of_mem _ hl)
  reserves l hl := h.reserves l (List.mem_cons_of_mem _ hl)
  apart := (List.pairwise_cons.1 h.apart).2

/-- **A layer that is cut**, and its entries with it. -/
theorem Held.cut (h : R.Held free (l :: layers) log) : R.Held free layers (log.take l.mark) where
  marked f hf := by
    rw [List.length_take]
    exact le_min ((List.pairwise_cons.1 h.apart).1 f hf).1 (h.tail.marked f hf)
  reserves f hf k hk := by
    obtain ⟨hfree, hnew, hres⟩ := h.tail.reserves f hf k hk
    refine ⟨hfree, fun hmem => hnew (mem_redeemed_of_take hmem), ?_⟩
    rw [List.getElem?_take_of_lt (((List.pairwise_cons.1 h.apart).1 f hf).2 k hk).1]
    exact hres
  apart := (List.pairwise_cons.1 h.apart).2

/-- **A layer that redeems its key** is gone. -/
theorem Held.redeem (h : R.Held free (l :: layers) log) (hlog : R.Orderly free log)
    (hl : l.key = some k) (ha : R.redeem a = some k) :
    R.Orderly free (log ++ [a]) ∧ R.Held free layers (log ++ [a]) := by
  obtain ⟨hfree, hnew, hres⟩ := h.reserves l List.mem_cons_self k hl
  refine ⟨hlog.redeem ha hfree hnew (mem_reserved_of_getElem? hres), fun f hf => ?_,
    fun f hf k' hk' => ?_, h.tail.apart⟩
  · rw [List.length_append]
    exact (h.tail.marked f hf).trans (Nat.le_add_right _ _)
  · obtain ⟨hfree', hnew', hres'⟩ := h.tail.reserves f hf k' hk'
    obtain ⟨b, hb, -⟩ := Option.bind_eq_some_iff.1 hres'
    have hne : k ≠ k' := fun heq =>
      (((List.pairwise_cons.1 h.apart).1 f hf).2 k' hk').2 (heq ▸ hl)
    rw [redeemed_append, show R.redeemed [a] = [k] from List.filterMap_cons_some ha,
      List.mem_append, List.mem_singleton, List.getElem?_append_left (List.getElem?_eq_some_iff.1 hb).1]
    exact ⟨hfree', fun hmem => hmem.elim hnew' fun heq => hne heq.symm, hres'⟩

/-- **A layer without a key.** -/
theorem Held.openNone (h : R.Held free layers log) :
    R.Held free (⟨none, log.length⟩ :: layers) log where
  marked l hl := (List.mem_cons.1 hl).elim (fun hl => hl ▸ le_rfl) (h.marked l)
  reserves l hl k hk := (List.mem_cons.1 hl).elim (fun hl => by rw [hl] at hk; cases hk)
    fun hl => h.reserves l hl k hk
  apart := by
    refine List.pairwise_cons.2 ⟨fun f hf => ⟨h.marked f hf, fun k hk => ⟨?_, nofun⟩⟩, h.apart⟩
    obtain ⟨-, -, hres⟩ := h.reserves f hf k hk
    obtain ⟨a, ha, -⟩ := Option.bind_eq_some_iff.1 hres
    exact (List.getElem?_eq_some_iff.1 ha).1

/-- **A layer for a fresh key**, which is reserved at its mark. -/
theorem Held.openSome (h : R.Held free layers log) (hlog : R.Orderly free log) (hfree : free k)
    (hfresh : k ∉ R.reserved log) (ha : R.reserve a = some k) (has : R.redeemed (a :: as) = []) :
    R.Held free (⟨some k, log.length⟩ :: layers) (log ++ a :: as) := by
  have hbelow := h.openNone.append has
  refine ⟨fun l hl => ?_, fun l hl k' hk' => ?_, List.pairwise_cons.2 ⟨fun f hf => ?_, h.apart⟩⟩
  · rcases List.mem_cons.1 hl with rfl | hl
    · exact hbelow.marked ⟨none, log.length⟩ List.mem_cons_self
    · exact hbelow.tail.marked l hl
  · rcases List.mem_cons.1 hl with rfl | hl
    · obtain rfl := Option.some.inj hk'
      refine ⟨hfree, fun hmem => hfresh (hlog.mem_reserved ?_), ?_⟩
      · rwa [redeemed_append, has, List.append_nil] at hmem
      · rw [List.getElem?_append_right le_rfl, Nat.sub_self]
        exact ha
    · exact hbelow.tail.reserves l hl k' hk'
  · obtain ⟨hle, hlt⟩ := (List.pairwise_cons.1 h.openNone.apart).1 f hf
    refine ⟨hle, fun k' hk' => ⟨(hlt k' hk').1, fun heq => hfresh ?_⟩⟩
    rw [Option.some.inj heq]
    exact mem_reserved_of_getElem? (h.reserves f hf k' hk').2.2

end Redeem
