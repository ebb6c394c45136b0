import NeonEvm.Evm.Decode

/-!
# Evm/Bitmap — which bytes the bitmap marks

    marked q  ↔  q is inside an instruction, as the bitmap decodes the section

Bits are set from left to right, so that a batch may overwrite the byte it runs into.  The bitmap
decodes like the scan, but for the jump tables of 128 entries and more, of which it takes 256 bytes
too few.
-/

namespace NeonEvm

open Exec

namespace Bitvec

/-- The bit at `q`. -/
def marked (b : Bitvec) (q : ℕ) : Bool := (b.bits.getD (q / 8) 0).toNat.testBit (q % 8)

/-- No bit is set from `pc` on. -/
def Clear (b : Bitvec) (pc : ℕ) : Prop := ∀ q, pc ≤ q → b.marked q = false

/-- `n` bits more are set from `pc` on. -/
structure Marks (b : Bitvec) (pc n : ℕ) (b' : Bitvec) : Prop where
  length : b'.bits.length = b.bits.length
  marked : ∀ q, b'.marked q = (b.marked q || decide (pc ≤ q ∧ q < pc + n))

variable {b b' b'' : Bitvec} {pc n m q i : ℕ} {x : UInt8}

theorem Marks.refl (b : Bitvec) (pc : ℕ) : b.Marks pc 0 b :=
  ⟨rfl, fun q => by
    have h : ¬(pc ≤ q ∧ q < pc + 0) := by omega
    rw [decide_eq_false h, Bool.or_false]⟩

theorem Marks.trans (h : b.Marks pc n b') (h' : b'.Marks (pc + n) m b'') : b.Marks pc (n + m) b'' :=
  ⟨h'.length.trans h.length, fun q => by
    rw [h'.marked, h.marked, Bool.or_assoc, ← Bool.decide_or]
    congr 2
    exact propext (by omega)⟩

theorem Marks.clear (h : b.Marks pc n b') (hb : b.Clear pc) : b'.Clear (pc + n) := by
  intro q hq
  rw [h.marked, hb q (by omega), Bool.false_or]
  exact decide_eq_false (by omega)

/-! ## Single bytes -/

theorem isCodeSegment_eq (h : q / 8 < b.bits.length) :
    b.isCodeSegment q () = .ok (!b.marked q) () := by
  have hbit : ∀ k < 8, ∀ x : UInt8, decide (x >>> UInt8.ofNat k &&& 1 = 0) = !x.toNat.testBit k := by
    intro k hk
    refine forall_byte ?_
    revert k
    decide +kernel
  rw [isCodeSegment, byteAt, List.getElem?_eq_getElem h, marked, List.getD_eq_getElem?_getD,
    List.getElem?_eq_getElem h, Option.getD_some]
  exact congrArg (Outcome.ok · ()) (hbit _ (Nat.mod_lt _ (by decide)) _)

theorem put_eq (h : i < b.bits.length) : b.put i x () = .ok ⟨b.bits.set i x⟩ () := by
  rw [put, if_pos h]
  rfl

theorem merge_eq (h : i < b.bits.length) :
    b.merge i x () = .ok ⟨b.bits.set i (b.bits.getD i 0 ||| x)⟩ () := by
  rw [merge, byteAt, List.getElem?_eq_getElem h, List.getD_eq_getElem?_getD,
    List.getElem?_eq_getElem h]
  exact put_eq h

/-- The bits after a byte was written. -/
theorem marked_set (h : i < b.bits.length) :
    marked ⟨b.bits.set i x⟩ q = if q / 8 = i then x.toNat.testBit (q % 8) else b.marked q := by
  rw [marked, marked, List.getD_eq_getElem?_getD, List.getD_eq_getElem?_getD, List.getElem?_set]
  by_cases hq : q / 8 = i
  · rw [if_pos hq, if_pos hq.symm, if_pos (hq ▸ h), Option.getD_some]
  · rw [if_neg hq, if_neg (Ne.symm hq)]

theorem length_set : (⟨b.bits.set i x⟩ : Bitvec).bits.length = b.bits.length := List.length_set ..

/-- The first byte of a batch, and the bits of the batch in it. -/
theorem marked_merge (h : i < b.bits.length) :
    marked ⟨b.bits.set i (b.bits.getD i 0 ||| x)⟩ q =
      (b.marked q || (decide (q / 8 = i) && x.toNat.testBit (q % 8))) := by
  rw [marked_set h]
  split_ifs with hq
  · rw [UInt8.toNat_or, Nat.testBit_or, decide_eq_true hq, Bool.true_and, ← hq]
    rfl
  · rw [decide_eq_false hq, Bool.false_and, Bool.or_false]

/-- A byte behind the last bit that is set: writing it sets its bits. -/
theorem marked_set_clear (h : i < b.bits.length) (hb : ∀ q, q / 8 = i → b.marked q = false) :
    marked ⟨b.bits.set i x⟩ q =
      (b.marked q || (decide (q / 8 = i) && x.toNat.testBit (q % 8))) := by
  rw [marked_set h]
  split_ifs with hq
  · rw [hb q hq, decide_eq_true hq, Bool.true_and, Bool.false_or]
  · rw [decide_eq_false hq, Bool.false_and, Bool.or_false]

/-! ## Batches -/

/-- The bits of the batches of eight: in the first byte, and in the one behind it. -/
theorem testBit_high : ∀ k < 8, ∀ j < 8,
    (UInt8.ofNat (0xFF <<< k)).toNat.testBit j = decide (k ≤ j) ∧
      (~~~UInt8.ofNat (0xFF <<< k)).toNat.testBit j = decide (j < k) := by
  decide +kernel

theorem testBit_full : ∀ j < 8, (0xFF : UInt8).toNat.testBit j = true := by
  decide +kernel

/-- **`set8`** sets eight bits. -/
theorem set8_ok (hb : b.Clear pc) (hlen : (pc + 8) / 8 < b.bits.length) :
    ∃ b', b.set8 pc () = .ok b' () ∧ b.Marks pc 8 b' := by
  have hi : pc / 8 < b.bits.length := by omega
  set a := UInt8.ofNat (0xFF <<< (pc % 8)) with ha
  set b₁ : Bitvec := ⟨b.bits.set (pc / 8) (b.bits.getD (pc / 8) 0 ||| a)⟩ with hb₁
  have hlen₁ : b₁.bits.length = b.bits.length := length_set
  have hsecond : pc / 8 + 1 < b₁.bits.length := by omega
  have hrun : b.set8 pc () = b₁.put (pc / 8 + 1) (~~~a) () := by
    rw [set8, bind_run, merge_eq hi]
    rfl
  refine ⟨_, hrun.trans (put_eq hsecond), length_set.trans hlen₁, fun q => ?_⟩
  rw [marked_set_clear hsecond fun q hq => ?_, marked_merge hi, Bool.or_assoc]
  · congr 1
    obtain ⟨h₁, h₂⟩ := testBit_high (pc % 8) (Nat.mod_lt _ (by decide)) (q % 8)
      (Nat.mod_lt _ (by decide))
    rw [← ha] at h₁ h₂
    rw [h₁, h₂, ← Bool.decide_and, ← Bool.decide_and, ← Bool.decide_or]
    exact decide_eq_decide.2 (by omega)
  · rw [marked_merge hi, hb q (by omega), decide_eq_false (by omega)]
    rfl

/-- **`set16`** sets sixteen bits. -/
theorem set16_ok (hb : b.Clear pc) (hlen : (pc + 16) / 8 < b.bits.length) :
    ∃ b', b.set16 pc () = .ok b' () ∧ b.Marks pc 16 b' := by
  have hi : pc / 8 < b.bits.length := by omega
  set a := UInt8.ofNat (0xFF <<< (pc % 8)) with ha
  set b₁ : Bitvec := ⟨b.bits.set (pc / 8) (b.bits.getD (pc / 8) 0 ||| a)⟩ with hb₁
  have hlen₁ : b₁.bits.length = b.bits.length := length_set
  have hsecond : pc / 8 + 1 < b₁.bits.length := by omega
  set b₂ : Bitvec := ⟨b₁.bits.set (pc / 8 + 1) 0xFF⟩ with hb₂
  have hlen₂ : b₂.bits.length = b.bits.length := length_set.trans hlen₁
  have hthird : pc / 8 + 2 < b₂.bits.length := by omega
  have hclear₁ : ∀ q, pc / 8 + 1 ≤ q / 8 → b₁.marked q = false := by
    intro q hq
    rw [marked_merge hi, hb q (by omega), decide_eq_false (by omega)]
    rfl
  have hclear₂ : ∀ q, q / 8 = pc / 8 + 2 → b₂.marked q = false := by
    intro q hq
    rw [marked_set_clear hsecond fun q hq => hclear₁ q hq.ge, hclear₁ q (by omega),
      decide_eq_false (by omega)]
    rfl
  have hrun : b.set16 pc () = b₂.put (pc / 8 + 2) (~~~a) () := by
    rw [set16, bind_run, merge_eq hi]
    show (b₁.put (pc / 8 + 1) 0xFF ()).andThen _ = _
    rw [put_eq hsecond]
    rfl
  refine ⟨_, hrun.trans (put_eq hthird), length_set.trans hlen₂, fun q => ?_⟩
  rw [marked_set_clear hthird hclear₂, marked_set_clear hsecond fun q hq => hclear₁ q hq.ge,
    marked_merge hi, Bool.or_assoc, Bool.or_assoc]
  congr 1
  obtain ⟨h₁, h₂⟩ := testBit_high (pc % 8) (Nat.mod_lt _ (by decide)) (q % 8)
    (Nat.mod_lt _ (by decide))
  rw [← ha] at h₁ h₂
  rw [h₁, h₂, testBit_full _ (Nat.mod_lt _ (by decide)), Bool.and_true, ← Bool.decide_and,
    ← Bool.decide_and, ← Bool.decide_or, ← Bool.decide_or]
  exact decide_eq_decide.2 (by omega)

/-- The bits of a batch of less than eight: in the first byte, and in the one behind it. -/
theorem testBit_mask : ∀ n < 8, ∀ k < 8, ∀ j < 8,
    (UInt8.ofNat ((2 ^ n - 1) <<< k % U16_SIZE)).toNat.testBit j = decide (k ≤ j ∧ j < k + n) ∧
      (UInt8.ofNat (((2 ^ n - 1) <<< k % U16_SIZE) >>> 8)).toNat.testBit j =
        decide (j + 8 < k + n) := by
  decide +kernel

/-- Whether a batch runs into the next byte. -/
theorem mask_high_eq_zero : ∀ n < 8, ∀ k < 8,
    UInt8.ofNat (((2 ^ n - 1) <<< k % U16_SIZE) >>> 8) = 0 ↔ k + n ≤ 8 := by
  decide +kernel

/-- **`set_n`** sets `n` bits. -/
theorem setN_ok (hn : 1 ≤ n ∧ n < 8) (hb : b.Clear pc) (hlen : (pc + n) / 8 < b.bits.length) :
    ∃ b', b.setN (2 ^ n - 1) pc () = .ok b' () ∧ b.Marks pc n b' := by
  have hi : pc / 8 < b.bits.length := by omega
  have hbits := fun j hj => testBit_mask n hn.2 (pc % 8) (Nat.mod_lt _ (by decide)) j hj
  have hzero := mask_high_eq_zero n hn.2 (pc % 8) (Nat.mod_lt _ (by decide))
  generalize ha : (2 ^ n - 1) <<< (pc % 8) % U16_SIZE = a at hbits hzero
  set b₁ : Bitvec := ⟨b.bits.set (pc / 8) (b.bits.getD (pc / 8) 0 ||| UInt8.ofNat a)⟩ with hb₁
  have hlen₁ : b₁.bits.length = b.bits.length := length_set
  have hrun : b.setN (2 ^ n - 1) pc () = (if UInt8.ofNat (a >>> 8) ≠ 0 then
      b₁.put (pc / 8 + 1) (UInt8.ofNat (a >>> 8)) else pure b₁) () := by
    simp only [setN, ha, bind_run, merge_eq hi]
    rfl
  have hclear₁ : ∀ q, q / 8 = pc / 8 + 1 → b₁.marked q = false := by
    intro q hq
    rw [marked_merge hi, hb q (by omega), decide_eq_false (by omega)]
    rfl
  by_cases hover : pc % 8 + n ≤ 8
  · rw [if_neg (not_not.2 (hzero.2 hover))] at hrun
    refine ⟨b₁, hrun, hlen₁, fun q => ?_⟩
    rw [marked_merge hi, (hbits (q % 8) (Nat.mod_lt _ (by decide))).1, ← Bool.decide_and]
    congr 1
    exact decide_eq_decide.2 (by omega)
  · rw [if_pos fun h => hover (hzero.1 h)] at hrun
    have hsecond : pc / 8 + 1 < b₁.bits.length := by omega
    refine ⟨_, hrun.trans (put_eq hsecond), length_set.trans hlen₁, fun q => ?_⟩
    obtain ⟨h₁, h₂⟩ := hbits (q % 8) (Nat.mod_lt _ (by decide))
    rw [marked_set_clear hsecond hclear₁, marked_merge hi, Bool.or_assoc, h₁, h₂,
      ← Bool.decide_and, ← Bool.decide_and, ← Bool.decide_or]
    congr 1
    exact decide_eq_decide.2 (by omega)

/-- Sixteen at a time. -/
theorem foldl_set16_ok (k : ℕ) (hb : b.Clear pc) (hlen : (pc + 16 * k) / 8 < b.bits.length) :
    ∃ b', foldl (fun b k => b.set16 (pc + 16 * k)) b (List.range k) () = .ok b' () ∧
      b.Marks pc (16 * k) b' := by
  induction k with
  | zero => exact ⟨b, rfl, Marks.refl b pc⟩
  | succ k ih =>
    obtain ⟨b₁, hrun₁, hmarks₁⟩ := ih (by omega)
    obtain ⟨b₂, hrun₂, hmarks₂⟩ := set16_ok (hmarks₁.clear hb)
      (by rw [hmarks₁.length]; omega)
    refine ⟨b₂, ?_, hmarks₁.trans hmarks₂⟩
    rw [List.range_succ, foldl_concat, hrun₁]
    exact hrun₂

theorem bitsMask_eq : ∀ n < 8, BITS_MASK[n]? = some (2 ^ n - 1) := by decide

/-- The end of `mark`: what is left after the batches of sixteen and eight. -/
theorem mark_rest_ok (hb : b.Clear pc) (hlen : (pc + n) / 8 < b.bits.length)
    (hmarks : b.Marks pc (n - n % 8) b') :
    ∃ b'', (if 1 ≤ n % 8 then (do
        pure (← b'.setN (2 ^ (n % 8) - 1) (pc + (n - n % 8)), pc + (n - n % 8) + n % 8) :
          Fallible (Bitvec × ℕ))
      else pure (b', pc + (n - n % 8))) () = .ok (b'', pc + n) () ∧ b.Marks pc n b'' := by
  split_ifs with h1
  · obtain ⟨b₃, hrun, hmarks'⟩ := setN_ok ⟨h1, Nat.mod_lt _ (by decide)⟩ (hmarks.clear hb)
      (by rw [hmarks.length]; omega)
    refine ⟨b₃, ?_, ?_⟩
    · rw [bind_run, hrun]
      show Outcome.ok (b₃, pc + (n - n % 8) + n % 8) () = _
      rw [show pc + (n - n % 8) + n % 8 = pc + n by omega]
    · have := hmarks.trans hmarks'
      rwa [show n - n % 8 + n % 8 = n by omega] at this
  · refine ⟨b', ?_, ?_⟩
    · rw [show pc + (n - n % 8) = pc + n by omega]
      rfl
    · rwa [show n - n % 8 = n by omega] at hmarks

/-- **Marking** sets as many bits as it is told. -/
theorem mark_ok (numbits : UInt8) (hb : b.Clear pc)
    (hlen : (pc + numbits.toNat) / 8 < b.bits.length) :
    ∃ b', b.mark numbits pc () = .ok (b', pc + numbits.toNat) () ∧
      b.Marks pc numbits.toNat b' := by
  generalize hn : numbits.toNat = n at hlen
  obtain ⟨b₁, hrun₁, hmarks₁⟩ := foldl_set16_ok (n / 16) hb (by omega)
  simp only [mark, hn, bind_run, hrun₁, bitsMask_eq _ (Nat.mod_lt n (by decide : 0 < 8)),
    Outcome.andThen]
  by_cases h8 : 8 ≤ n % 16
  · obtain ⟨b₂, hrun₂, hmarks₂⟩ := set8_ok (hmarks₁.clear hb) (by rw [hmarks₁.length]; omega)
    have hmarks := hmarks₁.trans hmarks₂
    rw [show 16 * (n / 16) + 8 = n - n % 8 by omega] at hmarks
    obtain ⟨b₃, hrun₃, hmarks₃⟩ := mark_rest_ok hb hlen hmarks
    refine ⟨b₃, ?_, hmarks₃⟩
    rw [if_pos h8, bind_run, hrun₂]
    show (if 1 ≤ n % 8 then (do
      pure (← b₂.setN (2 ^ (n % 8) - 1) (pc + 16 * (n / 16) + 8), pc + 16 * (n / 16) + 8 + n % 8) :
        Fallible (Bitvec × ℕ)) else pure (b₂, pc + 16 * (n / 16) + 8)) () = _
    rw [show pc + 16 * (n / 16) + 8 = pc + (n - n % 8) by omega]
    exact hrun₃
  · rw [show 16 * (n / 16) = n - n % 8 by omega] at hmarks₁
    obtain ⟨b₃, hrun₃, hmarks₃⟩ := mark_rest_ok hb hlen hmarks₁
    refine ⟨b₃, ?_, hmarks₃⟩
    rw [if_neg h8]
    show (if 1 ≤ n % 8 then (do
      pure (← b₁.setN (2 ^ (n % 8) - 1) (pc + 16 * (n / 16)), pc + 16 * (n / 16) + n % 8) :
        Fallible (Bitvec × ℕ)) else pure (b₁, pc + 16 * (n / 16))) () = _
    rw [show 16 * (n / 16) = n - n % 8 by omega]
    exact hrun₃

/-! ## The whole section -/

open Container opcode

/-- The size of the instruction at `p`, as the bitmap decodes it: the size of a jump table is a
`u8`, and is clipped at the end of the code. -/
def bitmapLen (code : Buffer) (p : ℕ) : ℕ :=
  if code.getOrDefault p = RJUMPV then
    if code.len ≤ p + 1 then 1
    else
      let numbits := code.getOrDefault (p + 1) * 2 + 1
      1 + if code.len < p + 1 + numbits.toNat then code.len - (p + 1) else numbits.toNat
  else 1 + (immediateSize (code.getOrDefault p)).toNat

variable {code : Buffer}

theorem bitmapLen_pos (p : ℕ) : 0 < bitmapLen code p := by
  rw [bitmapLen]
  split_ifs
  · exact Nat.one_pos
  · exact Nat.lt_of_lt_of_le Nat.one_pos (Nat.le_add_right ..)
  · exact Nat.lt_of_lt_of_le Nat.one_pos (Nat.le_add_right ..)

theorem immediateSize_le : ∀ op : UInt8, (immediateSize op).toNat ≤ 32 :=
  forall_byte (by decide +kernel)

/-- The bits so far: those of the instructions before `pc`. -/
structure Marked (code : Buffer) (b : Bitvec) (pc : ℕ) : Prop where
  length : b.bits.length = code.len / 8 + 1 + 4
  start : Tiling.Start (bitmapLen code) pc
  clear : b.Clear pc
  marked : ∀ q < pc, b.marked q = true ↔ Tiling.Inside (bitmapLen code) q

/-- One instruction more. -/
theorem Marked.next (hb : Marked code b pc) (hn : bitmapLen code pc = 1 + n)
    (h : b.Marks (pc + 1) n b') : Marked code b' (pc + 1 + n) := by
  have hnext := hb.start.next
  rw [hn, ← Nat.add_assoc] at hnext
  have hclear : b.Clear (pc + 1) := fun q hq => hb.clear q (by omega)
  refine ⟨h.length.trans hb.length, hnext, h.clear hclear, fun q hq => ?_⟩
  rw [h.marked, Bool.or_eq_true, decide_eq_true_iff]
  obtain hlt | rfl | hgt := Nat.lt_trichotomy q pc
  · rw [hb.marked q hlt, or_iff_left (by omega)]
  · rw [hb.clear q le_rfl, or_iff_right Bool.false_ne_true]
    refine ⟨fun h => absurd h.1 (by omega), fun hin => ?_⟩
    exact ((Tiling.start_iff_not_inside bitmapLen_pos).1 hb.start hin).elim
  · refine ⟨fun _ => ⟨pc, hb.start, hgt, by omega⟩, fun _ => .inr ⟨hgt, hq⟩⟩

/-- **The loop** marks what is inside the instructions it decodes, and never leaves the bitmap. -/
theorem eofCodeBitmapInternal_ok (code : Buffer) (fuel : ℕ) (hpos : 0 < fuel) (hfuel : code.len < pc + fuel)
    (hb : Marked code b pc) :
    ∃ b', eofCodeBitmapInternal code fuel b pc () = .ok b' () ∧
      b'.bits.length = code.len / 8 + 1 + 4 ∧
      ∀ q < code.len, b'.marked q = true ↔ Tiling.Inside (bitmapLen code) q := by
  induction fuel generalizing b pc with
  | zero => exact absurd hpos (Nat.lt_irrefl 0)
  | succ fuel ih =>
    rw [eofCodeBitmapInternal]
    by_cases hpc : code.len ≤ pc
    · rw [if_pos hpc]
      exact ⟨b, rfl, hb.length, fun q hq => hb.marked q (by omega)⟩
    · rw [if_neg hpc]
      have hclear : b.Clear (pc + 1) := fun q hq => hb.clear q (by omega)
      by_cases hop : code.getOrDefault pc = RJUMPV
      · simp only [hop, if_true]
        by_cases hend : code.len ≤ pc + 1
        · rw [if_pos hend]
          refine ⟨b, rfl, hb.length, fun q hq => ?_⟩
          obtain hlt | rfl : q < pc ∨ q = pc := by omega
          · exact hb.marked q hlt
          · rw [hb.clear q le_rfl]
            refine ⟨fun h => absurd h Bool.false_ne_true, fun hin => ?_⟩
            exact ((Tiling.start_iff_not_inside bitmapLen_pos).1 hb.start hin).elim
        · rw [if_neg hend]
          set numbits := code.getOrDefault (pc + 1) * 2 + 1 with hnumbits
          set clipped := if code.len < pc + 1 + numbits.toNat then UInt8.ofNat (code.len - (pc + 1))
            else numbits with hclipped
          have hsize : clipped.toNat =
              if code.len < pc + 1 + numbits.toNat then code.len - (pc + 1) else numbits.toNat := by
            rw [hclipped]
            split_ifs with h
            · have := numbits.toNat_lt
              exact UInt8.toNat_ofNat_of_lt' (by rw [UInt8.size]; omega)
            · rfl
          obtain ⟨b₁, hrun, hmarks⟩ := mark_ok clipped hclear (by
            rw [hb.length, hsize]
            split_ifs <;> omega)
          rw [bind_run, hrun]
          refine ih (by omega) (by omega) (hb.next ?_ hmarks)
          rw [bitmapLen, if_pos hop, if_neg hend, hsize]
      · simp only [hop, if_false]
        obtain ⟨b₁, hrun, hmarks⟩ := mark_ok (immediateSize (code.getOrDefault pc)) hclear
          (by have := immediateSize_le (code.getOrDefault pc); rw [hb.length]; omega)
        rw [bind_run, hrun]
        refine ih (by omega) (by omega) (hb.next ?_ hmarks)
        rw [bitmapLen, if_neg hop]

/-- **The bitmap** of a section. -/
theorem eofCodeBitmap_ok (code : Buffer) :
    ∃ b, eofCodeBitmap code () = .ok b () ∧ ∀ q < code.len,
      b.isCodeSegment q () = .ok (!b.marked q) () ∧
        (b.marked q = true ↔ Tiling.Inside (bitmapLen code) q) := by
  have hclear : ∀ n, (new n).Clear 0 := by
    intro n q _
    rw [new, Bitvec.marked, List.getD_eq_getElem?_getD, List.getElem?_replicate]
    split_ifs <;> exact Nat.zero_testBit _
  obtain ⟨b, hrun, hlen, hmarked⟩ := eofCodeBitmapInternal_ok code (code.len + 1)
    (Nat.succ_pos _) (by omega)
    ⟨List.length_replicate .., Tiling.start_zero, hclear _, fun q hq => absurd hq (Nat.not_lt_zero q)⟩
  exact ⟨b, hrun, fun q hq => ⟨isCodeSegment_eq (by omega), hmarked q hq⟩⟩

/-! ## The bitmap and the instructions -/

theorem u8_wraps : ∀ c : UInt8, (c * 2 + 1).toNat =
    if 128 ≤ c.toNat then 2 * c.toNat + 1 - 256 else 2 * c.toNat + 1 :=
  forall_byte (by decide +kernel)

/-- Where no jump table is taken for too short, the bitmap decodes the instructions. -/
theorem bitmapLen_eq {p : ℕ} (hp : p < code.len)
    (h : code.getOrDefault p = RJUMPV → 128 ≤ (code.getOrDefault (p + 1)).toNat →
      code.len + 254 ≤ p + 2 * (code.getOrDefault (p + 1)).toNat) :
    p + bitmapLen code p = p + instructionLen code p ∨
      (code.len ≤ p + bitmapLen code p ∧ code.len ≤ p + instructionLen code p) := by
  by_cases hop : code.getOrDefault p = RJUMPV
  · rw [instructionLen_rjumpv hop, bitmapLen, if_pos hop]
    have hcond := h hop
    simp only [u8_wraps]
    split_ifs <;> omega
  · rw [instructionLen, immediateLen, bitmapLen, if_neg hop, if_neg hop]
    exact .inl rfl

end Bitvec

open Container opcode in
/-- **The bitmap marks the immediates** exactly where the code ends before the 256 bytes that it
takes the jump tables of 128 entries and more too short by. -/
theorem code_bitmap_exact (code : Buffer) :
    ((∃ b, Bitvec.eofCodeBitmap code () = .ok b () ∧ ∀ p < code.len,
        ∃ isCode, b.isCodeSegment p () = .ok isCode () ∧ (isCode = true ↔ ¬InImmediate code p)) ∧
      ∀ metadata s s', scanInstruction code metadata s () = .ok s' () →
        InstructionStart code s.i → InstructionStart code s'.i) ↔
      ∀ p < code.len, InstructionStart code p → code.getOrDefault p = RJUMPV →
        128 ≤ (code.getOrDefault (p + 1)).toNat →
          code.len + 254 ≤ p + 2 * (code.getOrDefault (p + 1)).toNat := by
  have hscan : ∀ metadata s s', scanInstruction code metadata s () = .ok s' () →
      InstructionStart code s.i → InstructionStart code s'.i := by
    intro metadata s s' h hstart
    rw [scanInstruction_i h]
    exact hstart.next
  rw [and_iff_left hscan]
  obtain ⟨b, hrun, hb⟩ := Bitvec.eofCodeBitmap_ok code
  constructor
  · rintro ⟨b', hrun', hexact⟩ p hp hstart hop hcount
    obtain rfl : b = b' := by
      rw [hrun] at hrun'
      exact (Outcome.ok.inj hrun').1
    by_contra hshort
    have hagree : ∀ q < code.len,
        Tiling.Start (Bitvec.bitmapLen code) q ↔ InstructionStart code q := by
      intro q hq
      obtain ⟨isCode, hisCode, hiff⟩ := hexact q hq
      rw [(hb q hq).1] at hisCode
      obtain rfl := (Outcome.ok.inj hisCode).1
      rw [InstructionStart, Tiling.start_iff_not_inside Bitvec.bitmapLen_pos,
        Tiling.start_iff_not_inside instructionLen_pos, ← (hb q hq).2, Bool.not_eq_true,
        ← Bool.not_eq_true', hiff]
      rfl
    -- the instruction behind the table that is too short starts inside the table
    have hlen : Bitvec.bitmapLen code p = 2 * (code.getOrDefault (p + 1)).toNat - 254 := by
      have hlt := (code.getOrDefault (p + 1)).toNat_lt
      rw [Bitvec.bitmapLen, if_pos hop, if_neg (by omega)]
      simp only [Bitvec.u8_wraps, if_pos hcount]
      rw [if_neg (by omega)]
      omega
    have hnext := ((hagree p hp).2 hstart).next
    rw [hlen] at hnext
    have hstart' := (hagree _ (by omega)).1 hnext
    have := hstart.add_le instructionLen_pos hstart' (by omega)
    rw [instructionLen_rjumpv hop] at this
    omega
  · intro h
    have hagree := Tiling.start_congr (instructionLen code) (Bitvec.bitmapLen code)
      code.len fun p hp hstart => Bitvec.bitmapLen_eq hp (h p hp hstart)
    refine ⟨b, hrun, fun q hq => ⟨_, (hb q hq).1, ?_⟩⟩
    rw [InImmediate, ← Tiling.start_iff_not_inside instructionLen_pos, hagree q hq,
      Tiling.start_iff_not_inside Bitvec.bitmapLen_pos, ← (hb q hq).2, Bool.not_eq_true',
      Bool.not_eq_true]

/-- A table of 128 entries: its first byte is taken for an instruction. -/
theorem code_bitmap_short_table :
    ¬∀ code : Buffer, ∃ b, Bitvec.eofCodeBitmap code () = .ok b () ∧ ∀ p < code.len,
      ∃ isCode, b.isCodeSegment p () = .ok isCode () ∧
        (isCode = true ↔ ¬Container.InImmediate code p) := by
  intro h
  set code : Buffer := .owned ([opcode.RJUMPV, 128] ++ List.replicate 256 0) with hcode
  obtain ⟨b, hrun, hb⟩ := h code
  obtain ⟨isCode, hisCode, hiff⟩ := hb 2 (by decide +kernel)
  have hinside : Container.InImmediate code 2 :=
    ⟨0, Tiling.start_zero, by decide, by decide +kernel⟩
  have hmarked : (do (← Bitvec.eofCodeBitmap code).isCodeSegment 2) () = .ok true () := by
    decide +kernel
  rw [bind_run, hrun] at hmarked
  rw [show b.isCodeSegment 2 () = .ok true () from hmarked] at hisCode
  exact hiff.1 (Outcome.ok.inj hisCode).1.symm hinside

end NeonEvm
