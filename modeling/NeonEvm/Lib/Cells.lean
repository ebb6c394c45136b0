import NeonEvm.Lib.Chunks

/-!
# Lib/Cells — a list as a function of the position

    cells d xs i = xs[i]        and d behind the end of the list

Lists that are read and overwritten in place are compared as functions: what is read is a `window` of
one, what is written an `overlay`.
-/

namespace Cells

open Chunks

variable {α : Type} {d : α} {f g : ℕ → α} {xs ys : List α} {offset n i : ℕ}

/-- The element at every position, `d` where there is none. -/
def cells (d : α) (xs : List α) (i : ℕ) : α := xs.getD i d

/-- The `n` values from `offset` on. -/
def window (f : ℕ → α) (offset n : ℕ) : List α := (List.range n).map fun k => f (offset + k)

/-- `f`, with the values `ys` from `offset` on. -/
def overlay (f : ℕ → α) (offset : ℕ) (ys : List α) (i : ℕ) : α :=
  if offset ≤ i then (ys[i - offset]?).getD (f i) else f i

@[simp] theorem length_window : (window f offset n).length = n := by
  rw [window, List.length_map, List.length_range]

theorem getElem?_window {k : ℕ} (h : k < n) : (window f offset n)[k]? = some (f (offset + k)) := by
  rw [window, List.getElem?_map, List.getElem?_range h, Option.map_some]

/-- Nothing outside the values is touched. -/
theorem overlay_of_not_mem (h : i < offset ∨ offset + ys.length ≤ i) : overlay f offset ys i = f i := by
  rw [overlay]
  split_ifs with hle
  · rw [List.getElem?_eq_none (by omega), Option.getD_none]
  · rfl

theorem overlay_nil : overlay f offset [] = f :=
  funext fun _ => overlay_of_not_mem (by rw [List.length_nil]; omega)

/-! ## Lists -/

/-- **A slice** of a list is a window. -/
theorem take_drop_eq_window (h : offset + n ≤ xs.length) :
    (xs.drop offset).take n = window (cells d xs) offset n := by
  refine List.ext_getElem? fun k => ?_
  by_cases hk : k < n
  · rw [getElem?_window hk, List.getElem?_take_of_lt hk, List.getElem?_drop, cells,
      List.getD_eq_getElem?_getD, List.getElem?_eq_getElem (by omega), Option.getD_some]
  · rw [List.getElem?_eq_none (by rw [List.length_take]; omega),
      List.getElem?_eq_none (by rw [length_window]; omega)]

/-- **Writing in place** is an overlay. -/
theorem cells_overwrite (h : offset + ys.length ≤ xs.length) :
    cells d (overwrite xs offset ys) = overlay (cells d xs) offset ys := by
  funext i
  simp only [cells, overlay, overwrite, List.getD_eq_getElem?_getD, List.append_assoc]
  by_cases hi : i < offset
  · rw [if_neg (not_le.2 hi), List.getElem?_append_left (by rw [List.length_take]; omega),
      List.getElem?_take_of_lt hi]
  · rw [if_pos (not_lt.1 hi), List.getElem?_append_right (by rw [List.length_take]; omega),
      List.length_take, Nat.min_eq_left (by omega)]
    by_cases hin : i - offset < ys.length
    · rw [List.getElem?_append_left hin, List.getElem?_eq_getElem hin, Option.getD_some,
        Option.getD_some]
    · rw [List.getElem?_append_right (not_lt.1 hin), List.getElem?_drop,
        List.getElem?_eq_none (not_lt.1 hin), Option.getD_none,
        show offset + ys.length + (i - offset - ys.length) = i by omega]

/-- Padding with the default value changes nothing. -/
theorem cells_append_replicate : cells d (xs ++ List.replicate n d) = cells d xs := by
  funext i
  rw [cells, cells, List.getD_eq_getElem?_getD, List.getD_eq_getElem?_getD]
  by_cases hi : i < xs.length
  · rw [List.getElem?_append_left hi]
  · rw [List.getElem?_append_right (not_lt.1 hi), List.getElem?_eq_none (not_lt.1 hi),
      List.getElem?_replicate, Option.getD_none]
    split_ifs <;> rfl

/-- What is cut off was the default value. -/
theorem cells_take (h : ∀ i, n ≤ i → cells d xs i = d) : cells d (xs.take n) = cells d xs := by
  funext i
  by_cases hi : i < n
  · rw [cells, cells, List.getD_eq_getElem?_getD, List.getD_eq_getElem?_getD,
      List.getElem?_take_of_lt hi]
  · rw [h i (not_lt.1 hi), cells, List.getD_eq_getElem?_getD,
      List.getElem?_eq_none (by rw [List.length_take]; omega), Option.getD_none]

end Cells
