import Mathlib.Data.List.Flatten
import Mathlib.Data.List.Range

/-!
# Lib/Chunks — records of one length in a row

    chunksExact n (c₀ ++ c₁ ++ … ++ rest) = [c₀, c₁, …]      each cᵢ of length n, rest shorter

A region of bytes that holds records of `n` bytes is read with `chunksExact` and written in place
with `overwrite`; both are computed on the list of the records.
-/

namespace Chunks

variable {α : Type} {n : ℕ} {cs : List (List α)}

/-- `slice::chunks_exact`: what is left over is dropped. -/
def chunksExact (n : ℕ) (xs : List α) : List (List α) :=
  (List.range (xs.length / n)).map fun i => (xs.drop (n * i)).take n

/-- `copy_from_slice` into the range that starts at `offset`. -/
def overwrite (xs : List α) (offset : ℕ) (ys : List α) : List α :=
  xs.take offset ++ ys ++ xs.drop (offset + ys.length)

/-! ## Reading -/

theorem chunksExact_nil : chunksExact n ([] : List α) = [] := by simp [chunksExact]

/-- **The first record.** -/
theorem chunksExact_append {c : List α} (hn : 0 < n) (hc : c.length = n) (xs : List α) :
    chunksExact n (c ++ xs) = c :: chunksExact n xs := by
  have hlen : (c ++ xs).length / n = xs.length / n + 1 := by
    rw [List.length_append, hc, Nat.add_comm, Nat.add_div_right _ hn]
  rw [chunksExact, hlen, List.range_succ_eq_map, List.map_cons, List.map_map]
  refine congrArg₂ _ ?_ (List.map_congr_left fun i _ => ?_)
  · rw [Nat.mul_zero, List.drop_zero, ← hc, List.take_left]
  · rw [Function.comp_apply, Nat.mul_succ, Nat.add_comm, ← List.drop_drop, ← hc, List.drop_left]

/-- **Records in a row are read back.** -/
theorem chunksExact_flatten (hn : 0 < n) (hcs : ∀ c ∈ cs, c.length = n) :
    chunksExact n cs.flatten = cs := by
  induction cs with
  | nil => exact chunksExact_nil
  | cons c cs ih =>
    rw [List.flatten_cons, chunksExact_append hn (hcs c List.mem_cons_self),
      ih fun c hc => hcs c (List.mem_cons_of_mem _ hc)]

theorem length_flatten_of_forall (hcs : ∀ c ∈ cs, c.length = n) :
    cs.flatten.length = n * cs.length := by
  rw [List.length_flatten, List.map_congr_left hcs, List.map_const',
    List.sum_replicate_nat, Nat.mul_comm]

/-! ## Writing -/

theorem length_overwrite {xs ys : List α} {offset : ℕ} (h : offset + ys.length ≤ xs.length) :
    (overwrite xs offset ys).length = xs.length := by
  simp only [overwrite, List.length_append, List.length_take, List.length_drop]
  omega

theorem overwrite_append_left {xs ys zs : List α} {offset : ℕ} (h : offset = xs.length + n) :
    overwrite (xs ++ zs) offset ys = xs ++ overwrite zs n ys := by
  subst h
  rw [overwrite, overwrite, List.take_length_add_append, Nat.add_assoc, List.drop_length_add_append,
    List.append_assoc, List.append_assoc, List.append_assoc]

theorem overwrite_append_right {xs ys zs : List α} {offset : ℕ}
    (h : offset + ys.length ≤ xs.length) :
    overwrite (xs ++ zs) offset ys = overwrite xs offset ys ++ zs := by
  rw [overwrite, overwrite, List.take_append_of_le_length (by omega),
    List.drop_append_of_le_length h, List.append_assoc, List.append_assoc, List.append_assoc]

/-- **Writing inside one record** changes that record. -/
theorem overwrite_flatten (hcs : ∀ c ∈ cs, c.length = n) {i offset : ℕ} {c ys : List α}
    (hi : cs[i]? = some c) (h : offset + ys.length ≤ n) :
    overwrite cs.flatten (n * i + offset) ys = (cs.set i (overwrite c offset ys)).flatten := by
  induction cs generalizing i with
  | nil => cases hi
  | cons d cs ih =>
    have hd : d.length = n := hcs d List.mem_cons_self
    rcases i with _ | i
    · obtain rfl : d = c := by simpa using hi
      rw [Nat.mul_zero, Nat.zero_add, List.flatten_cons, List.set_cons_zero, List.flatten_cons]
      exact overwrite_append_right (hd ▸ h)
    · rw [List.flatten_cons, List.set_cons_succ, List.flatten_cons,
        ← ih (fun c hc => hcs c (List.mem_cons_of_mem _ hc)) (by simpa using hi)]
      exact overwrite_append_left (by rw [hd, Nat.mul_succ]; omega)

/-- A range that a write does not meet is as before. -/
theorem take_drop_overwrite {xs ys : List α} {offset start len : ℕ}
    (hlen : offset + ys.length ≤ xs.length)
    (h : start + len ≤ offset ∨ offset + ys.length ≤ start) :
    ((overwrite xs offset ys).drop start).take len = (xs.drop start).take len := by
  refine List.ext_getElem? fun i => ?_
  simp only [List.getElem?_take, List.getElem?_drop, overwrite, List.append_assoc]
  split
  · rcases h with h | h
    · rw [List.getElem?_append_left (by rw [List.length_take]; omega), List.getElem?_take,
        if_pos (by omega)]
    · rw [List.getElem?_append_right (by rw [List.length_take]; omega),
        List.getElem?_append_right (by rw [List.length_take]; omega), List.getElem?_drop]
      congr 1
      rw [List.length_take]
      omega
  · rfl

/-- The range that was written. -/
theorem take_drop_overwrite_self {xs ys : List α} {offset : ℕ} (h : offset ≤ xs.length) :
    ((overwrite xs offset ys).drop offset).take ys.length = ys := by
  have hlen : (xs.take offset).length = offset := by rw [List.length_take]; omega
  rw [overwrite, List.append_assoc]
  nth_rewrite 1 [← hlen]
  rw [List.drop_left, List.take_left]

/-- **One write behind another** is one write. -/
theorem overwrite_append {xs ys zs : List α} {offset : ℕ} (h : offset + ys.length ≤ xs.length) :
    overwrite (overwrite xs offset ys) (offset + ys.length) zs =
      overwrite xs offset (ys ++ zs) := by
  have hlen : (xs.take offset ++ ys).length = offset + ys.length := by
    rw [List.length_append, List.length_take, Nat.min_eq_left (by omega)]
  have hdrop : ((xs.take offset ++ ys) ++ xs.drop (offset + ys.length)).drop
      (offset + ys.length + zs.length) = xs.drop (offset + (ys ++ zs).length) := by
    rw [← hlen, List.drop_length_add_append, List.drop_drop, hlen, List.length_append, Nat.add_assoc]
  rw [overwrite, overwrite, overwrite, hdrop, List.take_append_of_le_length (le_of_eq hlen.symm),
    List.take_of_length_le (le_of_eq hlen), List.append_assoc (xs.take offset)]

/-- **A write of the same length** replaces the one before. -/
theorem overwrite_overwrite {xs ys zs : List α} {offset : ℕ} (hlen : ys.length = zs.length)
    (h : offset ≤ xs.length) :
    overwrite (overwrite xs offset ys) offset zs = overwrite xs offset zs := by
  have htake : (xs.take offset).length = offset := by rw [List.length_take, Nat.min_eq_left h]
  have hdrop : (xs.take offset ++ ys ++ xs.drop (offset + ys.length)).drop (offset + zs.length) =
      xs.drop (offset + zs.length) := by
    rw [← hlen, ← List.length_append.trans (congrArg (· + ys.length) htake), List.drop_left,
      List.length_append, htake]
  have htake' : (xs.take offset ++ ys ++ xs.drop (offset + ys.length)).take offset =
      xs.take offset := by
    rw [List.append_assoc, List.take_append_of_le_length (le_of_eq htake.symm),
      List.take_of_length_le (le_of_eq htake)]
  rw [overwrite, overwrite, overwrite, hdrop, htake']

/-- **One record** of a row. -/
theorem take_drop_flatten (hcs : ∀ c ∈ cs, c.length = n) {i : ℕ} {c rest : List α}
    (hi : cs[i]? = some c) : ((cs.flatten ++ rest).drop (n * i)).take n = c := by
  induction cs generalizing i with
  | nil => cases hi
  | cons d cs ih =>
    have hd : d.length = n := hcs d List.mem_cons_self
    rcases i with _ | i
    · obtain rfl : d = c := by simpa using hi
      rw [Nat.mul_zero, List.drop_zero, List.flatten_cons, List.append_assoc, ← hd, List.take_left]
    · rw [Nat.mul_succ, Nat.add_comm, ← List.drop_drop, List.flatten_cons, List.append_assoc]
      conv_lhs => rw [← hd, List.drop_left, hd]
      exact ih (fun c hc => hcs c (List.mem_cons_of_mem _ hc)) (by simpa using hi)

end Chunks
