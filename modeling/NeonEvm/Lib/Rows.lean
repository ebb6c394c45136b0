import NeonEvm.Lib.Chunks

/-!
# Lib/Rows — a row of records with a body behind it

    row · body · …     ▸     longer row · the same body · …

Records of one format stand in a row at the front of a buffer, and a body follows them.  When the
row grows the body is moved first; both are read back.
-/

namespace Chunks

variable {α β : Type}

/-- **A format of records** — of one length, and read back. -/
structure Format (α β : Type) where
  size : ℕ
  pos : 0 < size
  encode : β → List α
  decode : List α → β
  length_encode (b : β) : (encode b).length = size
  decode_encode (b : β) : decode (encode b) = b

namespace Format

variable (F : Format α β) {bs : List β} {xs body : List α}

/-- The records in a row. -/
def row (bs : List β) : List α := (bs.map F.encode).flatten

/-- The records of a row. -/
def read (xs : List α) : List β := (chunksExact F.size xs).map F.decode

theorem length_of_mem {c : List α} (hc : c ∈ bs.map F.encode) : c.length = F.size := by
  obtain ⟨b, -, rfl⟩ := List.mem_map.1 hc
  exact F.length_encode b

/-- **A row is read back.** -/
@[simp] theorem read_row : F.read (F.row bs) = bs := by
  rw [read, row, chunksExact_flatten F.pos fun _ => F.length_of_mem, List.map_map]
  exact (List.map_congr_left fun b _ => F.decode_encode b).trans (List.map_id bs)

@[simp] theorem length_row : (F.row bs).length = F.size * bs.length := by
  rw [row, length_flatten_of_forall fun _ => F.length_of_mem, List.length_map]

/-- **The row grows**: the body is moved, and the row is written in front of it. -/
def regrow (xs body : List α) (bs : List β) : List α :=
  overwrite (overwrite xs (F.row bs).length body) 0 (F.row bs)

/-- The row that was written. -/
theorem take_regrow : (F.regrow xs body bs).take (F.row bs).length = F.row bs := by
  rw [regrow, ← List.drop_zero (l := overwrite _ 0 _)]
  exact take_drop_overwrite_self (Nat.zero_le _)

variable (hfits : (F.row bs).length + body.length ≤ xs.length)

include hfits

theorem length_regrow : (F.regrow xs body bs).length = xs.length := by
  have hmoved := length_overwrite hfits
  rw [regrow, length_overwrite, hmoved]
  rw [hmoved]
  omega

/-- **The body is where the row ends.** -/
theorem drop_regrow :
    ((F.regrow xs body bs).drop (F.row bs).length).take body.length = body := by
  have hmoved := length_overwrite hfits
  rw [regrow, take_drop_overwrite (by rw [hmoved]; omega) (.inr (Nat.zero_add _).le)]
  exact take_drop_overwrite_self (by omega)

end Format

end Chunks
