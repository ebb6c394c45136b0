import Mathlib.Data.List.Infix

/-!
# Lib/Journal — an append-only journal with nested snapshots

    entries   e₀ e₁ … eₙ            marks   m₀ ≥ m₁ ≥ …   (the last snapshot first)

A snapshot marks the journal's length; committing forgets the last mark, reverting cuts the journal
back to it.  The one fact behind nesting is `Over`: work that takes none of the marks back leaves the
entries below them alone.
-/

/-- A journal and the marks of its snapshots. -/
structure Journal (α : Type) where
  entries : List α
  marks : List ℕ

namespace Journal

variable {α : Type} {j : Journal α} {as base : List α} {ms : List ℕ}

def append (j : Journal α) (as : List α) : Journal α := { j with entries := j.entries ++ as }

def snapshot (j : Journal α) : Journal α := { j with marks := j.entries.length :: j.marks }

def commit (j : Journal α) : Journal α := { j with marks := j.marks.tail }

def revert (j : Journal α) : Journal α where
  entries := j.entries.take (j.marks.headD 0)
  marks := j.marks.tail

/-- **Work over a journal** — `j` was reached from `⟨base, ms⟩` by work that took none of the marks
`ms` back; `n` more snapshots have been taken since. -/
structure Over (base : List α) (ms : List ℕ) (n : ℕ) (j : Journal α) : Prop where
  below : base <+: j.entries
  marks : ∃ top : List ℕ, top.length = n ∧ (∀ m ∈ top, base.length ≤ m) ∧ j.marks = top ++ ms

theorem over_self (j : Journal α) : Over j.entries j.marks 0 j :=
  ⟨List.prefix_rfl, [], rfl, by simp, rfl⟩

theorem Over.append {n : ℕ} (h : Over base ms n j) (as : List α) : Over base ms n (j.append as) :=
  ⟨h.below.trans (List.prefix_append _ _), h.marks⟩

theorem Over.snapshot {n : ℕ} (h : Over base ms n j) : Over base ms (n + 1) j.snapshot := by
  obtain ⟨top, hn, htop, hm⟩ := h.marks
  refine ⟨h.below, j.entries.length :: top, by simp [hn], ?_, by simp [Journal.snapshot, hm]⟩
  simpa using ⟨h.below.length_le, htop⟩

theorem Over.commit {n : ℕ} (h : Over base ms (n + 1) j) : Over base ms n j.commit := by
  obtain ⟨top, hn, htop, hm⟩ := h.marks
  obtain ⟨m, top, rfl⟩ := List.exists_cons_of_length_eq_add_one hn
  refine ⟨h.below, top, by simpa using hn, fun k hk => htop k (List.mem_cons_of_mem _ hk), ?_⟩
  simp [Journal.commit, hm]

theorem Over.revert {n : ℕ} (h : Over base ms (n + 1) j) : Over base ms n j.revert := by
  obtain ⟨top, hn, htop, hm⟩ := h.marks
  obtain ⟨m, top, rfl⟩ := List.exists_cons_of_length_eq_add_one hn
  refine ⟨?_, top, by simpa using hn, fun k hk => htop k (List.mem_cons_of_mem _ hk), ?_⟩
  · have : base <+: j.entries.take m := by
      refine List.prefix_take_iff.2 ⟨h.below, htop m List.mem_cons_self⟩
    simpa [Journal.revert, hm] using this
  · simp [Journal.revert, hm]

theorem Over.marks_eq (h : Over base ms 0 j) : j.marks = ms := by
  obtain ⟨top, hn, -, hm⟩ := h.marks
  obtain rfl := List.length_eq_zero_iff.1 hn
  exact hm

/-- **Reverting the snapshot of `base` itself** gives the journal it was taken of. -/
theorem Over.revert_last (h : Over base (base.length :: ms) 0 j) : j.revert = ⟨base, ms⟩ := by
  obtain ⟨as, has⟩ := h.below
  simp [Journal.revert, h.marks_eq, ← has]

/-- **Committing the first of the marks** keeps everything journalled since. -/
theorem Over.commit_last (h : Over base ms 0 j) : Over base ms.tail 0 j.commit :=
  ⟨h.below, [], rfl, by simp, by simp [Journal.commit, h.marks_eq]⟩

/-! ## Journals built of blocks -/

/-- A list of entries put together from blocks. -/
inductive Built (P : List α → Prop) : List α → Prop
  | nil : Built P []
  | append {as bs : List α} : Built P as → P bs → Built P (as ++ bs)

theorem Built.single {P : List α → Prop} (h : P as) : Built P as := .append .nil h

theorem Built.trans {P : List α → Prop} {bs : List α} (ha : Built P as) (hb : Built P bs) :
    Built P (as ++ bs) := by
  induction hb with
  | nil => simpa using ha
  | append _ h ih => simpa using ih.append h

theorem Built.mono {P Q : List α → Prop} (ha : Built P as) (h : ∀ bs, P bs → Q bs) :
    Built Q as := by
  induction ha with
  | nil => exact .nil
  | append _ hb ih => exact ih.append (h _ hb)

theorem Built.eq_nil {P : List α → Prop} (ha : Built P as) (h : ∀ bs, ¬P bs) : as = [] := by
  cases ha with
  | nil => rfl
  | append _ hb => exact (h _ hb).elim

/-! ## The place of an entry -/

/-- `a` stands in the list, right behind `before`. -/
def Stands (before : List α) (a : α) (entries : List α) : Prop :=
  ∃ after, entries = before ++ a :: after

variable {before bs : List α} {a : α}

theorem Stands.of_below (h : Stands before a as) (hbelow : as <+: bs) : Stands before a bs := by
  obtain ⟨after, rfl⟩ := h
  obtain ⟨more, rfl⟩ := hbelow
  exact ⟨after ++ more, by rw [List.append_assoc, List.cons_append]⟩

/-- **An entry keeps its place** — it stood in the first list already, or it stands behind it. -/
theorem stands_or_below (hbelow : as <+: bs) (h : Stands before a bs) :
    Stands before a as ∨ as <+: before := by
  obtain ⟨after, rfl⟩ := h
  rcases List.prefix_or_prefix_of_prefix hbelow (List.prefix_append before (a :: after)) with
    hin | ⟨rest, hin⟩
  · exact .inr hin
  · cases rest with
    | nil => exact .inr (by rw [← hin, List.append_nil])
    | cons b rest =>
      obtain ⟨more, hmore⟩ := hbelow
      rw [← hin, List.append_assoc] at hmore
      obtain ⟨rfl, -⟩ := List.cons.inj (List.append_cancel_left hmore)
      exact .inl ⟨rest, hin.symm⟩

end Journal
