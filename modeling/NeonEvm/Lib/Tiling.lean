import Mathlib.Order.Monotone.Basic
import Mathlib.Order.Interval.Finset.Nat
import Mathlib.Data.Set.Card

/-!
# Lib/Tiling — cutting a line into tiles

    0 = t₀ < t₁ < t₂ < …      tₖ₊₁ = tₖ + size tₖ

A decoder that reads a thing at a position and goes on behind it cuts the positions into tiles, the
size of a tile being read at its start.  Every position is a start or inside one tile.
-/

namespace Tiling

/-- The start of the tile with number `k`. -/
def tile (size : ℕ → ℕ) : ℕ → ℕ
  | 0 => 0
  | k + 1 => tile size k + size (tile size k)

/-- A position where a tile starts. -/
def Start (size : ℕ → ℕ) (p : ℕ) : Prop := ∃ k, tile size k = p

/-- A position inside a tile, behind its start. -/
def Inside (size : ℕ → ℕ) (q : ℕ) : Prop := ∃ p, Start size p ∧ p < q ∧ q < p + size p

variable {size other : ℕ → ℕ} {p q n : ℕ}

theorem start_zero : Start size 0 := ⟨0, rfl⟩

/-- Behind a tile the next one starts. -/
theorem Start.next (h : Start size p) : Start size (p + size p) := by
  obtain ⟨k, rfl⟩ := h
  exact ⟨k + 1, rfl⟩

section

variable (hsize : ∀ p, 0 < size p)

include hsize

theorem strictMono_tile : StrictMono (tile size) :=
  strictMono_nat_of_lt_succ fun k => Nat.lt_add_of_pos_right (hsize (tile size k))

/-- **Tiles do not overlap.** -/
theorem Start.add_le (hp : Start size p) (hq : Start size q) (h : p < q) : p + size p ≤ q := by
  obtain ⟨k, rfl⟩ := hp
  obtain ⟨l, rfl⟩ := hq
  have hkl := (strictMono_tile hsize).lt_iff_lt.1 h
  exact (strictMono_tile hsize).monotone (Nat.succ_le_of_lt hkl)

/-- **Every position lies in a tile.** -/
theorem exists_start (q : ℕ) : ∃ p, Start size p ∧ p ≤ q ∧ q < p + size p := by
  induction q with
  | zero => exact ⟨0, start_zero, le_rfl, by simpa using hsize 0⟩
  | succ q ih =>
    obtain ⟨p, hp, hpq, hq⟩ := ih
    by_cases h : q + 1 < p + size p
    · exact ⟨p, hp, by omega, h⟩
    · refine ⟨p + size p, hp.next, by omega, ?_⟩
      have := hsize (p + size p)
      omega

/-- **A position is a start** or inside a tile, and never both. -/
theorem start_iff_not_inside : Start size q ↔ ¬Inside size q := by
  refine ⟨?_, fun h => ?_⟩
  · rintro hq ⟨p, hp, hpq, hqp⟩
    have := hp.add_le hsize hq hpq
    omega
  · obtain ⟨p, hp, hpq, hq⟩ := exists_start hsize q
    obtain rfl | hlt := Nat.eq_or_lt_of_le hpq
    · exact hp
    · exact (h ⟨p, hp, hlt, hq⟩).elim

/-- **So many tiles** start between two of them. -/
theorem ncard_start (a b : ℕ) :
    Set.ncard {p | Start size p ∧ tile size a ≤ p ∧ p < tile size b} = b - a := by
  have himage : {p | Start size p ∧ tile size a ≤ p ∧ p < tile size b} =
      (tile size '' (Finset.Ico a b : Set ℕ)) := by
    ext p
    constructor
    · rintro ⟨⟨k, rfl⟩, hak, hkb⟩
      rw [(strictMono_tile hsize).le_iff_le] at hak
      rw [(strictMono_tile hsize).lt_iff_lt] at hkb
      exact ⟨k, Finset.mem_coe.2 (Finset.mem_Ico.2 ⟨hak, hkb⟩), rfl⟩
    · rintro ⟨k, hk, rfl⟩
      obtain ⟨hak, hkb⟩ := Finset.mem_Ico.1 (Finset.mem_coe.1 hk)
      exact ⟨⟨k, rfl⟩, (strictMono_tile hsize).le_iff_le.2 hak,
        (strictMono_tile hsize).lt_iff_lt.2 hkb⟩
  rw [himage, Set.ncard_image_of_injective _ (strictMono_tile hsize).injective,
    Set.ncard_coe_finset, Nat.card_Ico]

/-- **The line ends** with a tile: the first one that is not before its end. -/
theorem exists_end (len : ℕ) : ∃ n, (∀ k < n, tile size k < len) ∧ len ≤ tile size n := by
  classical
  have hex : ∃ n, len ≤ tile size n := ⟨len, (strictMono_tile hsize).le_apply⟩
  exact ⟨Nat.find hex, fun k hk => not_le.1 (Nat.find_min hex hk), Nat.find_spec hex⟩

end

/-- **Two tilings agree** as far as their tiles end at the same places. -/
theorem start_congr (size other : ℕ → ℕ) (n : ℕ)
    (h : ∀ p < n, Start size p → p + other p = p + size p ∨ (n ≤ p + other p ∧ n ≤ p + size p)) :
    ∀ q < n, Start size q ↔ Start other q := by
  have hforth : ∀ k, tile size k < n → Start other (tile size k) := by
    intro k
    induction k with
    | zero => exact fun _ => start_zero
    | succ k ih =>
      intro hk
      have hlt : tile size k < n := (Nat.le_add_right ..).trans_lt hk
      rcases h _ hlt ⟨k, rfl⟩ with heq | hle
      · rw [tile, ← heq]
        exact (ih hlt).next
      · exact absurd hle.2 (Nat.not_le_of_lt hk)
  have hback : ∀ k, tile other k < n → Start size (tile other k) := by
    intro k
    induction k with
    | zero => exact fun _ => start_zero
    | succ k ih =>
      intro hk
      have hlt : tile other k < n := (Nat.le_add_right ..).trans_lt hk
      rcases h _ hlt (ih hlt) with heq | hle
      · rw [tile, heq]
        exact (ih hlt).next
      · exact absurd hle.1 (Nat.not_le_of_lt hk)
  refine fun q hq => ⟨?_, ?_⟩
  · rintro ⟨k, rfl⟩
    exact hforth k hq
  · rintro ⟨k, rfl⟩
    exact hback k hq

end Tiling
