import NeonEvm.Lib.Chunks

/-!
# Lib/Pieces — a message put together from its pieces

    piece     a stretch of the message, with its offset
    agrees    the buffer has the message's bytes at the places that were written

Pieces may come in any order, overlap and repeat: a place that was written holds the message's byte
from then on, as every later piece writes the same one.
-/

namespace Chunks

variable {α : Type} {t xs ys : List α} {offset : ℕ}

/-- `ys` is the stretch of `t` at the offset. -/
structure IsPiece (t : List α) (offset : ℕ) (ys : List α) : Prop where
  fits : offset + ys.length ≤ t.length
  eq : (t.drop offset).take ys.length = ys

/-- The place lies in the stretch. -/
def Within (offset : ℕ) (ys : List α) (i : ℕ) : Prop := offset ≤ i ∧ i < offset + ys.length

/-- The buffer holds the message at the given places. -/
def Agrees (t : List α) (places : ℕ → Prop) (xs : List α) : Prop :=
  ∀ i, places i → xs[i]? = t[i]?

theorem getElem?_overwrite (h : offset + ys.length ≤ xs.length) (i : ℕ) :
    (overwrite xs offset ys)[i]? =
      if offset ≤ i ∧ i < offset + ys.length then ys[i - offset]? else xs[i]? := by
  have htake : (xs.take offset).length = offset := by
    rw [List.length_take, Nat.min_eq_left (by omega)]
  rw [overwrite, List.append_assoc]
  rcases Nat.lt_or_ge i offset with hlt | hge
  · rw [List.getElem?_append_left (by omega), List.getElem?_take, if_pos hlt, if_neg (by omega)]
  · rw [List.getElem?_append_right (by omega), htake]
    rcases Nat.lt_or_ge i (offset + ys.length) with hlt | hge'
    · rw [List.getElem?_append_left (by omega), if_pos ⟨hge, hlt⟩]
    · rw [List.getElem?_append_right (by omega), List.getElem?_drop, if_neg (by omega)]
      congr 1
      omega

theorem IsPiece.getElem? (h : IsPiece t offset ys) {i : ℕ} (hi : Within offset ys i) :
    ys[i - offset]? = t[i]? := by
  obtain ⟨hge, hlt⟩ := hi
  conv_lhs => rw [← h.eq]
  rw [List.getElem?_take, if_pos (by omega), List.getElem?_drop, Nat.add_sub_cancel' hge]

/-- **Writing a piece.** -/
theorem Agrees.overwrite {places : ℕ → Prop} (h : Agrees t places xs) (hc : IsPiece t offset ys)
    (hfit : offset + ys.length ≤ xs.length) :
    Agrees t (fun i => places i ∨ Within offset ys i) (overwrite xs offset ys) := by
  intro i hi
  rw [getElem?_overwrite hfit]
  split_ifs with hwithin
  · exact hc.getElem? hwithin
  · exact h i (hi.resolve_right hwithin)

/-- **The message is there** when every place of it was written. -/
theorem Agrees.take {places : ℕ → Prop} (h : Agrees t places xs)
    (hall : ∀ i, i < t.length → places i) : xs.take t.length = t := by
  refine List.ext_getElem? fun i => ?_
  rw [List.getElem?_take]
  split_ifs with hi
  · exact h i (hall i hi)
  · exact (List.getElem?_eq_none_iff.2 (Nat.not_lt.1 hi)).symm

end Chunks
