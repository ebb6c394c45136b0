import NeonEvm.Account.StoragePage

/-!
# Account/PageSeed — the seeds of the pages

    seed i = seed j  ↔  i and j agree in the 224 bits above the low byte      every byte below 0x80

A seed spells 28 bytes of an index in 32 bytes of seven bits: the low seven bits of each byte in its
place, the top bits of seven bytes at a time in one of the last four.  The top three bytes of an
index are not in its seed, so a page shares its account with the pages that differ from it there.
-/

namespace NeonEvm

open Chunks

/-! ## The bytes of a number -/

/-- The low bytes of a number are the last ones. -/
theorem drop_toBeBytes (m k n : ℕ) : (toBeBytes (k + m) n).drop m = toBeBytes k n := by
  induction k generalizing n with
  | zero =>
    rw [List.drop_eq_nil_of_le (by rw [length_toBeBytes, Nat.zero_add])]
    rfl
  | succ k ih =>
    rw [Nat.add_right_comm, toBeBytes, List.drop_append_of_le_length, ih, toBeBytes]
    rw [length_toBeBytes]
    exact Nat.le_add_left ..

/-- **Equal bytes** spell equal numbers. -/
theorem toBeBytes_inj {len m n : ℕ} :
    toBeBytes len m = toBeBytes len n ↔ m % 256 ^ len = n % 256 ^ len := by
  refine ⟨fun h => ?_, fun h => ?_⟩
  · rw [← ofBeBytes_toBeBytes, ← ofBeBytes_toBeBytes, h]
  · have hback := fun x => toBeBytes_ofBeBytes (toBeBytes len x)
    simp only [length_toBeBytes, ofBeBytes_toBeBytes] at hback
    rw [← hback m, ← hback n, h]

/-! ## Bytes of seven bits -/

/-- The bit that does not fit into seven. -/
def topBit (b : UInt8) : Bool := b.toBitVec[7]

/-- Seven bits and the eighth. -/
theorem byte_eq (b : UInt8) : b = (b &&& 0x7F) ||| if topBit b then 0x80 else 0 := by
  rw [← UInt8.toBitVec_inj]
  ext i hi
  by_cases h : topBit b
  · rcases i with _ | _ | _ | _ | _ | _ | _ | _ | i
    all_goals first | omega | simp [h]
    exact h
  · rcases i with _ | _ | _ | _ | _ | _ | _ | _ | i
    all_goals first | omega | simp [h]
    exact Bool.eq_false_of_not_eq_true h

/-- **A byte** is its low seven bits and its top bit. -/
theorem byte_ext {a b : UInt8} (h : a &&& 0x7F = b &&& 0x7F) (htop : topBit a = topBit b) :
    a = b := by
  rw [byte_eq a, byte_eq b, h, htop]

theorem bytes_ext : ∀ {xs ys : Bytes}, xs.map (· &&& 0x7F) = ys.map (· &&& 0x7F) →
    xs.map topBit = ys.map topBit → xs = ys
  | [], [], _, _ => rfl
  | x :: xs, y :: ys, h, htop => by
    rw [List.map_cons, List.map_cons, List.cons.injEq] at h htop
    rw [byte_ext h.1 htop.1, bytes_ext h.2 htop.2]

/-- A byte of seven bits. -/
theorem lt_of_topBit {b : UInt8} (h : topBit b = false) : b < 0x80 := by
  rw [byte_eq b, h, UInt8.lt_iff_toNat_lt]
  simp only [Bool.false_eq_true, if_false, UInt8.or_zero, UInt8.toNat_and]
  exact Nat.and_lt_two_pow _ (n := 7) (by decide)

theorem topBit_and (b : UInt8) : topBit (b &&& 0x7F) = false := by simp [topBit]

namespace EthereumStorage

/-- The bits of a byte, the lowest first. -/
def bitsOf (b : UInt8) : List Bool := List.ofFn fun i : Fin 8 => b.toBitVec[i]

/-- The top bits of seven bytes, in one. -/
def topBits (bytes : Bytes) : UInt8 :=
  (bytes.zipIdx).foldl (fun b (byte, i) => b ||| ((byte &&& 0x80) >>> UInt8.ofNat (1 + i))) 0

theorem topBits_eq (a b c d e f g : UInt8) :
    topBits [a, b, c, d, e, f, g] = (0 : UInt8) ||| (a &&& 0x80) >>> 1 ||| (b &&& 0x80) >>> 2 |||
      (c &&& 0x80) >>> 3 ||| (d &&& 0x80) >>> 4 ||| (e &&& 0x80) >>> 5 ||| (f &&& 0x80) >>> 6 |||
      (g &&& 0x80) >>> 7 := rfl

/-- **Seven top bits** in one byte, below its own. -/
theorem bitsOf_topBits {bytes : Bytes} (h : bytes.length = 7) :
    bitsOf (topBits bytes) = (bytes.map topBit).reverse ++ [false] := by
  obtain ⟨a, b, c, d, e, f, g, rfl⟩ : ∃ a b c d e f g, bytes = [a, b, c, d, e, f, g] := by
    rcases bytes with _ | ⟨a, _ | ⟨b, _ | ⟨c, _ | ⟨d, _ | ⟨e, _ | ⟨f, _ | ⟨g, _ | ⟨x, bytes⟩⟩⟩⟩⟩⟩⟩⟩
    all_goals first | (exact ⟨_, _, _, _, _, _, _, rfl⟩) | simp at h
  rw [topBits_eq]
  simp [bitsOf, List.ofFn_succ, topBit]

theorem topBits_inj {xs ys : Bytes} (hx : xs.length = 7) (hy : ys.length = 7)
    (h : topBits xs = topBits ys) : xs.map topBit = ys.map topBit := by
  have hbits := congrArg bitsOf h
  rw [bitsOf_topBits hx, bitsOf_topBits hy] at hbits
  exact List.reverse_injective (List.append_inj_left' hbits rfl)

theorem topBit_topBits {bytes : Bytes} (h : bytes.length = 7) : topBit (topBits bytes) = false := by
  have hlast : topBit (topBits bytes) = (bitsOf (topBits bytes)).getLast (by simp [bitsOf]) := by
    simp [bitsOf, List.ofFn_succ, topBit]
  simp only [hlast, bitsOf_topBits h, List.getLast_append, List.getLast_singleton]
  simp

/-! ## Seeds -/

/-- The bytes of an index that its seed is made of. -/
def seedBytes (index : U256) : Bytes := (index.bytes.drop 3).take 28

theorem length_seedBytes (index : U256) : (seedBytes index).length = 28 := by
  rw [seedBytes, List.length_take, List.length_drop, U256.length_bytes]
  rfl

theorem seedBytes_eq (index : U256) : seedBytes index = toBeBytes 28 (index.toNat / 256) := by
  have hdrop : index.bytes.drop 3 = toBeBytes 28 (index.toNat / 256) ++ [UInt8.ofNat index.toNat] :=
    drop_toBeBytes 3 29 index.toNat
  rw [seedBytes, hdrop, List.take_left' (length_toBeBytes ..)]

/-- A group of seven bytes. -/
def group (index : U256) (part : ℕ) : Bytes := ((seedBytes index).drop (7 * part)).take 7

theorem length_group {index : U256} {part : ℕ} (h : part < 4) : (group index part).length = 7 := by
  rw [group, List.length_take, List.length_drop, length_seedBytes]
  omega

/-- The groups in a row. -/
theorem seedBytes_groups (index : U256) :
    seedBytes index = group index 0 ++ (group index 1 ++ (group index 2 ++ group index 3)) := by
  have hlast : group index 3 = (seedBytes index).drop 21 :=
    List.take_of_length_le (by rw [List.length_drop, length_seedBytes])
  have hstep : ∀ n, ((seedBytes index).drop n).take 7 ++ (seedBytes index).drop (n + 7) =
      (seedBytes index).drop n := by
    intro n
    rw [← List.drop_drop, List.take_append_drop]
  have h₂ : group index 2 ++ group index 3 = (seedBytes index).drop 14 := by
    rw [hlast, group, hstep 14]
  have h₁ : group index 1 ++ (seedBytes index).drop 14 = (seedBytes index).drop 7 := by
    rw [group, hstep 7]
  rw [h₂, h₁, group, hstep 0, List.drop_zero]

theorem makeSeed_eq (index : U256) :
    makeSeed index = (seedBytes index).map (· &&& 0x7F) ++
      [topBits (group index 0), topBits (group index 1), topBits (group index 2),
        topBits (group index 3)] := by
  rw [makeSeed]
  rfl

theorem length_makeSeed (index : U256) : (makeSeed index).length = 32 := by
  rw [makeSeed_eq, List.length_append, List.length_map, length_seedBytes]
  rfl

/-- **A seed is of seven-bit bytes.** -/
theorem makeSeed_lt {index : U256} {b : UInt8} (h : b ∈ makeSeed index) : b < 0x80 := by
  refine lt_of_topBit ?_
  rw [makeSeed_eq, List.mem_append, List.mem_map] at h
  rcases h with ⟨c, -, hc⟩ | h
  · rw [← hc]
    exact topBit_and c
  · simp only [List.mem_cons, List.not_mem_nil, or_false] at h
    rcases h with h | h | h | h <;> rw [h] <;> exact topBit_topBits (length_group (by decide))

/-- **A seed determines the bytes it is made of.** -/
theorem makeSeed_inj {i j : U256} : makeSeed i = makeSeed j ↔ seedBytes i = seedBytes j := by
  refine ⟨fun h => ?_, fun h => by simp only [makeSeed_eq, group, h]⟩
  rw [makeSeed_eq, makeSeed_eq] at h
  obtain ⟨hlow, hhigh⟩ := List.append_inj h (by simp only [List.length_map, length_seedBytes])
  refine bytes_ext hlow ?_
  simp only [List.cons.injEq, and_true] at hhigh
  have hgroup : ∀ {part}, part < 4 → topBits (group i part) = topBits (group j part) →
      (group i part).map topBit = (group j part).map topBit := fun hpart =>
    topBits_inj (length_group hpart) (length_group hpart)
  simp only [seedBytes_groups, List.map_append]
  rw [hgroup (by decide) hhigh.1, hgroup (by decide) hhigh.2.1, hgroup (by decide) hhigh.2.2.1,
    hgroup (by decide) hhigh.2.2.2]

/-- **Equal seeds** are those of indices that agree in the 28 bytes above the low one. -/
theorem makeSeed_eq_iff {i j : U256} :
    makeSeed i = makeSeed j ↔ i.toNat / 2 ^ 8 % 2 ^ 224 = j.toNat / 2 ^ 8 % 2 ^ 224 := by
  rw [makeSeed_inj, seedBytes_eq, seedBytes_eq, toBeBytes_inj]
  norm_num

end EthereumStorage

end NeonEvm
