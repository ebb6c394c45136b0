import NeonEvm.AccountStorage.Backend

/-!
# AccountStorage/SlotHash — which block hashes are found

    data = n · record₀ · … · recordₙ₋₁      slots strictly decreasing

The search looks at the records before the last one.  It finds each of them, takes the last one for
missing, and reads outside the data where there is no record at all.
-/

namespace NeonEvm

open Content

namespace SlotHashes

/-- An entry of `SlotHashes`. -/
structure Record where
  slot : ℕ
  hash : Bytes
  slot_lt : slot < 2 ^ 64
  length_hash : hash.length = 32

/-- The bytes of an entry. -/
def Record.bytes (r : Record) : Bytes := toLeBytes 8 r.slot ++ r.hash

/-- The data of the account. -/
def encode (rs : List Record) : Bytes := toLeBytes 8 rs.length ++ rs.flatMap Record.bytes

/-- The slots, the latest first. -/
def Descending (rs : List Record) : Prop := rs.Pairwise fun r s => s.slot < r.slot

/-- **The hash of a slot**: the one stored with it, or the fake one. -/
def hashOf (rs : List Record) (value : ℕ) : U256 :=
  ((rs.find? (·.slot = value)).map fun r => U256.ofBytes r.hash).getD (generateFakeSlotHash value)

variable {rs : List Record} {value : ℕ}

/-! ## Reading the data -/

theorem ofLeBytes_toLeBytes (len n : ℕ) : ofLeBytes (toLeBytes len n) = n % 256 ^ len := by
  rw [ofLeBytes, toLeBytes, List.reverse_reverse, ofBeBytes_toBeBytes]

theorem Record.length_bytes (r : Record) : r.bytes.length = 40 := by
  rw [bytes, List.length_append, length_toLeBytes, r.length_hash]

theorem length_flatMap_bytes (rs : List Record) :
    (rs.flatMap Record.bytes).length = rs.length * 40 := by
  induction rs with
  | nil => rfl
  | cons r rs ih =>
    rw [List.flatMap_cons, List.length_append, r.length_bytes, ih, List.length_cons]
    omega

theorem length_encode (rs : List Record) : (encode rs).length = rs.length * 40 + 8 := by
  rw [encode, List.length_append, length_toLeBytes, length_flatMap_bytes, Nat.add_comm]

theorem drop_flatMap_bytes (k : ℕ) (rs : List Record) :
    (rs.flatMap Record.bytes).drop (k * 40) = (rs.drop k).flatMap Record.bytes := by
  induction k generalizing rs with
  | zero => rw [Nat.zero_mul, List.drop_zero, List.drop_zero]
  | succ k ih =>
    rcases rs with _ | ⟨r, rs⟩
    · rw [List.flatMap_nil, List.drop_nil, List.drop_nil, List.flatMap_nil]
    · rw [List.flatMap_cons, List.drop_succ_cons, ← ih, Nat.succ_mul, Nat.add_comm]
      nth_rewrite 1 [← r.length_bytes]
      rw [List.drop_length_add_append]

/-- The data from a record on. -/
theorem drop_encode {k : ℕ} {r : Record} (hr : rs[k]? = some r) :
    (encode rs).drop (k * 40 + 8) =
      toLeBytes 8 r.slot ++ (r.hash ++ (rs.drop (k + 1)).flatMap Record.bytes) := by
  obtain ⟨hk, rfl⟩ := List.getElem?_eq_some_iff.1 hr
  have hlen : (toLeBytes 8 rs.length).length = 8 := length_toLeBytes ..
  rw [encode, Nat.add_comm]
  nth_rewrite 1 [← hlen]
  rw [List.drop_length_add_append, drop_flatMap_bytes, List.drop_eq_getElem_cons hk,
    List.flatMap_cons, Record.bytes, List.append_assoc]

/-- The slot of a record is read. -/
theorem slice_slot {k : ℕ} {r : Record} (hr : rs[k]? = some r) :
    (slice (encode rs) (k * 40 + 8) 8).map ofLeBytes = some r.slot := by
  obtain ⟨hk, -⟩ := List.getElem?_eq_some_iff.1 hr
  rw [slice, if_pos (by rw [length_encode]; omega), drop_encode hr,
    List.take_left' (length_toLeBytes ..), Option.map_some, ofLeBytes_toLeBytes,
    Nat.mod_eq_of_lt (by simpa using r.slot_lt)]

/-- The hash of a record is read. -/
theorem slice_hash {k : ℕ} {r : Record} (hr : rs[k]? = some r) :
    slice (encode rs) (k * 40 + 8 + 8) 32 = some r.hash := by
  obtain ⟨hk, -⟩ := List.getElem?_eq_some_iff.1 hr
  rw [slice, if_pos (by rw [length_encode]; omega), ← List.drop_drop, drop_encode hr,
    List.drop_left' (length_toLeBytes ..), List.take_left' r.length_hash]

/-! ## The search -/

theorem Descending.lt {j k : ℕ} {r s : Record} (hrs : Descending rs) (hj : rs[j]? = some r)
    (hk : rs[k]? = some s) (hjk : j < k) : s.slot < r.slot := by
  obtain ⟨hj', rfl⟩ := List.getElem?_eq_some_iff.1 hj
  obtain ⟨hk', rfl⟩ := List.getElem?_eq_some_iff.1 hk
  exact List.pairwise_iff_getElem.1 hrs j k hj' hk' hjk

/-- **A stored slot** has the hash stored with it. -/
theorem hashOf_eq {k : ℕ} {r : Record} (hrs : Descending rs) (hr : rs[k]? = some r) :
    hashOf rs r.slot = U256.ofBytes r.hash := by
  obtain ⟨s, hs⟩ : ∃ s, rs.find? (·.slot = r.slot) = some s := by
    rw [← Option.isSome_iff_exists, List.find?_isSome]
    exact ⟨r, List.mem_of_getElem? hr, decide_eq_true rfl⟩
  have hslot : s.slot = r.slot := by simpa using List.find?_some hs
  obtain ⟨j, hj⟩ := List.getElem?_of_mem (List.mem_of_find?_eq_some hs)
  obtain hlt | rfl | hlt := Nat.lt_trichotomy j k
  · exact absurd (hrs.lt hj hr hlt) (by omega)
  · rw [hashOf, hs, ← Option.some.inj (hj.symm.trans hr)]
    rfl
  · exact absurd (hrs.lt hr hj hlt) (by omega)

/-- A slot that is not stored has a fake hash. -/
theorem hashOf_eq_fake (h : ∀ r ∈ rs, r.slot ≠ value) :
    hashOf rs value = generateFakeSlotHash value := by
  rw [hashOf, List.find?_eq_none.2 fun r hr => by simpa using h r hr]
  rfl

/-- **The loop**: what is left of the window holds every record before the last that has the slot
which is looked for. -/
theorem search_eq (hrs : Descending rs) (hlen : (encode rs).length < USIZE) {left right : ℕ}
    (hright : right < rs.length)
    (hwindow : ∀ k r, rs.dropLast[k]? = some r → r.slot = value → left ≤ k ∧ k < right) :
    search value (encode rs) left right = some (hashOf rs.dropLast value) := by
  have hlast : Descending rs.dropLast := List.Pairwise.sublist (List.dropLast_sublist rs) hrs
  obtain ⟨n, hn⟩ : ∃ n, right - left = n := ⟨_, rfl⟩
  induction n using Nat.strong_induction_on generalizing left right with
  | _ n ih =>
    rw [search]
    by_cases hlr : left < right
    · rw [if_pos hlr]
      have hmid : left + (right - left) / 2 < right := by omega
      generalize hm : left + (right - left) / 2 = mid at *
      obtain ⟨r, hr⟩ : ∃ r, rs[mid]? = some r := ⟨_, List.getElem?_eq_getElem (hmid.trans hright)⟩
      have hr' : rs.dropLast[mid]? = some r := by
        rw [List.getElem?_dropLast, if_pos (by omega), hr]
      have hoffset : mid * 40 + 8 + 8 < USIZE := by
        rw [length_encode] at hlen
        omega
      simp only [Nat.mod_eq_of_lt ((Nat.le_add_right _ 8).trans_lt hoffset), slice_slot hr]
      split_ifs with hlt hgt
      · refine ih _ (by omega) hright (fun k s hs hvalue => ⟨?_, (hwindow k s hs hvalue).2⟩) rfl
        by_contra hk
        obtain rfl | hk : k = mid ∨ k < mid := by omega
        · obtain rfl := Option.some.inj (hr'.symm.trans hs)
          omega
        · exact absurd (hlast.lt hs hr' hk) (by omega)
      · refine ih _ (by omega) (hmid.trans hright)
          (fun k s hs hvalue => ⟨(hwindow k s hs hvalue).1, ?_⟩) rfl
        by_contra hk
        obtain rfl | hk : k = mid ∨ mid < k := by omega
        · obtain rfl := Option.some.inj (hr'.symm.trans hs)
          omega
        · exact absurd (hlast.lt hr' hs hk) (by omega)
      · obtain rfl : r.slot = value := by omega
        rw [wrappingAdd, Nat.mod_eq_of_lt hoffset, slice_hash hr, hashOf_eq hlast hr']
        rfl
    · rw [if_neg hlr, hashOf_eq_fake]
      intro r hr hvalue
      obtain ⟨k, hk⟩ := List.getElem?_of_mem hr
      have := hwindow k r hk hvalue
      omega

/-- With no record at all, the search reads outside the data. -/
theorem findSlotHash_nil (value : ℕ) : findSlotHash value (encode []) = none := by
  have hlen : (slice (encode []) 0 8).map ofLeBytes = some 0 := by decide +kernel
  have hright : wrappingAdd 0 (USIZE - 1) = USIZE - 1 := by decide +kernel
  have hslice : (slice (encode []) ((0 + (USIZE - 1 - 0) / 2) * 40 % USIZE + 8) 8).map ofLeBytes =
      none := by decide +kernel
  have hoffset : ((0 + (USIZE - 1 - 0) / 2) * 40 + 8) % USIZE =
      (0 + (USIZE - 1 - 0) / 2) * 40 % USIZE + 8 := by decide +kernel
  rw [findSlotHash, hlen, Option.bind_eq_bind, Option.bind_some, hright, search,
    if_pos (by decide +kernel)]
  simp only [hoffset, hslice]

/-- **What the search finds**: every record but the last one. -/
theorem findSlotHash_eq (hrs : Descending rs) (hlen : (encode rs).length < USIZE) (hne : rs ≠ []) :
    findSlotHash value (encode rs) = some (hashOf rs.dropLast value) := by
  have hpos : 0 < rs.length := List.length_pos_iff.2 hne
  have hlt : rs.length < USIZE := by
    rw [length_encode] at hlen
    omega
  have hread : (slice (encode rs) 0 8).map ofLeBytes = some rs.length := by
    rw [slice, if_pos (by rw [length_encode]; omega), List.drop_zero, encode,
      List.take_left' (length_toLeBytes ..), Option.map_some, ofLeBytes_toLeBytes,
      Nat.mod_eq_of_lt (by simpa [USIZE] using hlt)]
  have hright : wrappingAdd rs.length (USIZE - 1) = rs.length - 1 := by
    rw [wrappingAdd, show rs.length + (USIZE - 1) = rs.length - 1 + USIZE by omega,
      Nat.add_mod_right, Nat.mod_eq_of_lt (by omega)]
  rw [findSlotHash, hread, Option.bind_eq_bind, Option.bind_some, hright]
  refine search_eq hrs hlen (by omega) fun k r hr _ => ⟨Nat.zero_le k, ?_⟩
  obtain ⟨hk, -⟩ := List.getElem?_eq_some_iff.1 hr
  rwa [List.length_dropLast] at hk

/-- The hash of a slot, from the records before the last one and the last one. -/
theorem hashOf_concat {r : Record} (hrs : Descending (rs ++ [r])) :
    hashOf (rs ++ [r]) value = if r.slot = value then U256.ofBytes r.hash else hashOf rs value := by
  split_ifs with h
  · rw [← h]
    exact hashOf_eq hrs (List.getElem?_concat_length ..)
  · rw [hashOf, hashOf, List.find?_append]
    simp [h]

end SlotHashes

open SlotHashes

/-- **Slot hashes are found** exactly where there is a record, and the slot is not that of the last
one, or the hash stored with it happens to be the fake one. -/
theorem slot_hash_found (rs : List SlotHashes.Record) (value : ℕ) (hrs : Descending rs)
    (hlen : (encode rs).length < USIZE) :
    findSlotHash value (encode rs) = some (hashOf rs value) ↔
      ∃ r, rs.getLast? = some r ∧
        (r.slot = value → U256.ofBytes r.hash = generateFakeSlotHash value) := by
  rcases List.eq_nil_or_concat rs with rfl | ⟨rs, r, rfl⟩
  · simp [findSlotHash_nil]
  · rw [List.concat_eq_append] at hrs hlen ⊢
    rw [findSlotHash_eq hrs hlen (by simp), List.dropLast_concat, hashOf_concat hrs,
      Option.some.injEq, List.getLast?_concat]
    simp only [Option.some.injEq, exists_eq_left']
    split_ifs with h
    · have hfake : hashOf rs value = generateFakeSlotHash value := by
        refine hashOf_eq_fake fun s hs hvalue => ?_
        have := (List.pairwise_append.1 hrs).2.2 s hs r List.mem_cons_self
        omega
      rw [hfake]
      exact ⟨fun heq _ => heq.symm, fun heq => (heq h).symm⟩
    · exact ⟨fun _ hvalue => (h hvalue).elim, fun _ => rfl⟩

/-- The first of two records. -/
theorem slot_hash_found_first :
    let rs : List SlotHashes.Record :=
      [⟨8, List.replicate 32 1, by decide, by decide⟩, ⟨5, List.replicate 32 2, by decide, by decide⟩]
    findSlotHash 8 (encode rs) = some (hashOf rs 8) ↔
      ∃ r, rs.getLast? = some r ∧
        (r.slot = 8 → U256.ofBytes r.hash = generateFakeSlotHash 8) :=
  slot_hash_found _ 8 (by simp [Descending]) (by rw [length_encode]; decide +kernel)

/-- The only record is not found. -/
theorem slot_hash_missed :
    ¬∀ (rs : List SlotHashes.Record) (value : ℕ), Descending rs → (encode rs).length < USIZE →
      findSlotHash value (encode rs) = some (hashOf rs value) := by
  intro h
  have heq := h [⟨5, List.replicate 32 2, by decide, by decide⟩] 5 (by simp [Descending])
    (by rw [length_encode]; decide +kernel)
  exact absurd heq (by decide +kernel)

end NeonEvm
