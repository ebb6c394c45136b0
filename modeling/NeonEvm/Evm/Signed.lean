import NeonEvm.Evm.Modular

/-!
# Evm/Signed — the signed and the shifting opcodes against the integers

    SAR s v  =  ⌊v / 2 ^ s⌋   below 256
             =  0             from 256 on, of a negative v too

Every other opcode of the family is its definition over the integers at every operand.  `SAR`
pushes zero for a shift out of range, as `SHL` and `SHR` do, where a negative value has floor -1.
-/

namespace NeonEvm

open Exec

/-! ## Bytes and bits -/

/-- **The bytes of a number**, the most significant first. -/
theorem getElem?_toBeBytes {len i : ℕ} (n : ℕ) (h : i < len) :
    (toBeBytes len n)[i]? = some (UInt8.ofNat (n / 256 ^ (len - 1 - i))) := by
  induction len generalizing n with
  | zero => exact absurd h (Nat.not_lt_zero i)
  | succ len ih =>
    rw [toBeBytes]
    by_cases hi : i < len
    · rw [List.getElem?_append_left (by simpa using hi), ih _ hi, Nat.div_div_eq_div_mul,
        ← pow_succ', show len - 1 - i + 1 = len + 1 - 1 - i by omega]
    · obtain rfl : i = len := by omega
      rw [List.getElem?_append_right (by simp), length_toBeBytes]
      simp

theorem natCast_shiftLeft (k : ℕ) : ((1 <<< k : ℕ) : U256) = BitVec.twoPow 256 k := by
  refine BitVec.eq_of_toNat_eq ?_
  rw [BitVec.toNat_twoPow, Nat.shiftLeft_eq, Nat.one_mul]
  rfl

/-- The mask of the bits below `k`. -/
theorem getLsbD_mask {k : ℕ} (hk : k < 256) (i : ℕ) :
    (BitVec.twoPow 256 k - 1).getLsbD i = decide (i < k) := by
  have hone : (BitVec.twoPow 256 k).toNat = 2 ^ k := by
    rw [BitVec.toNat_twoPow, Nat.mod_eq_of_lt (Nat.pow_lt_pow_right (by decide) hk)]
  have hle : (1 : U256) ≤ BitVec.twoPow 256 k := by
    rw [BitVec.le_def, hone]
    exact Nat.one_le_two_pow
  rw [BitVec.getLsbD, BitVec.toNat_sub_of_le hle, hone]
  exact Nat.testBit_two_pow_sub_one k i

/-- A test with one bit set. -/
theorem and_twoPow_ne_zero {k : ℕ} (hk : k < 256) (x : U256) :
    x &&& BitVec.twoPow 256 k ≠ 0 ↔ x.getLsbD k = true := by
  rw [BitVec.and_twoPow]
  by_cases h : x.getLsbD k
  · rw [if_pos h]
    refine iff_of_true (fun hzero => ?_) h
    have hbit := congrArg (·.getLsbD k) hzero
    simp [hk] at hbit
  · rw [if_neg h]
    exact iff_of_false (fun hne => hne rfl) h

/-- **SIGNEXTEND on bits** — it repeats the bit `8 * b + 7` upwards. -/
theorem signextend_eq {b x : U256} (hb : b < 32) :
    signextend b x = (x.setWidth (8 * b.toNat + 7 + 1)).signExtend 256 := by
  have hk : 8 * b.toNat + 7 < 256 := by
    have : b.toNat < 32 := hb
    omega
  rw [signextend, if_pos hb]
  simp only [natCast_shiftLeft]
  generalize 8 * b.toNat + 7 = k at hk
  have hmsb : (x.setWidth (k + 1)).msb = x.getLsbD k := by
    rw [BitVec.msb_setWidth]
    simp
  refine BitVec.eq_of_getLsbD_eq fun i hi => ?_
  rw [BitVec.getLsbD_signExtend, hmsb, BitVec.getLsbD_setWidth, decide_eq_true hi]
  by_cases h : x.getLsbD k
  · rw [if_pos ((and_twoPow_ne_zero hk x).2 h), BitVec.getLsbD_or, BitVec.getLsbD_not,
      getLsbD_mask hk, h]
    rcases Nat.lt_trichotomy i k with hlt | rfl | hgt
    · simp [hi, hlt, hlt.trans (Nat.lt_succ_self k)]
    · simp [hi, h]
    · simp [hi, Nat.not_lt.2 hgt.le, Nat.not_lt.2 (Nat.succ_le_of_lt hgt)]
  · rw [if_neg ((and_twoPow_ne_zero hk x).not.2 h), BitVec.getLsbD_and, getLsbD_mask hk]
    rcases Nat.lt_trichotomy i k with hlt | rfl | hgt
    · simp [hlt, hlt.trans (Nat.lt_succ_self k)]
    · simp [h]
    · simp [h, Nat.not_lt.2 hgt.le, Nat.not_lt.2 (Nat.succ_le_of_lt hgt)]

/-- **SIGNEXTEND over the integers** — the balanced residue of the low `b + 1` bytes. -/
theorem toInt_signextend {b x : U256} (hb : b < 32) :
    (signextend b x).toInt = (x.toNat : ℤ).bmod (2 ^ (8 * (b.toNat + 1))) := by
  have hk : 8 * b.toNat + 7 + 1 ≤ 256 := by
    have : b.toNat < 32 := hb
    omega
  rw [signextend_eq hb, BitVec.toInt_signExtend_of_le hk, BitVec.toInt_eq_toNat_bmod,
    BitVec.toNat_setWidth, Int.natCast_emod, Int.emod_bmod]
  rfl

/-- From the last byte on nothing is extended. -/
theorem signextend_of_le {b x : U256} (hb : 31 ≤ b) : signextend b x = x := by
  by_cases h : b < 32
  · have hlast : b.toNat = 31 := by
      have h₁ : 31 ≤ b.toNat := hb
      have h₂ : b.toNat < 32 := h
      omega
    rw [signextend_eq h, hlast]
    simp
  · rw [signextend, if_neg h]

/-! ## Shifts -/

/-- **SAR below 256** is a division rounded down. -/
theorem toInt_sshiftRight_eq (v : U256) (k : ℕ) : (v.sshiftRight k).toInt = v.toInt / 2 ^ k := by
  rw [BitVec.toInt_sshiftRight, Int.shiftRight_eq_div_pow]
  push_cast
  rfl

/-- **A value shifted out of its width**: the floor is the sign. -/
theorem toInt_ediv_two_pow (v : U256) {k : ℕ} (hk : 256 ≤ k) :
    v.toInt / 2 ^ k = if 0 ≤ v.toInt then 0 else -1 := by
  have hpow : (2 : ℤ) ^ 256 ≤ 2 ^ k := pow_le_pow_right₀ (by decide) hk
  have hlt : v.toInt < 2 ^ 256 := by
    have h : 2 * v.toInt < 2 ^ 256 := BitVec.two_mul_toInt_lt
    omega
  have hge : -2 ^ 256 ≤ v.toInt := by
    have h : -2 ^ 256 ≤ 2 * v.toInt := BitVec.le_two_mul_toInt
    omega
  by_cases h : 0 ≤ v.toInt
  · rw [if_pos h]
    exact Int.ediv_eq_zero_of_lt h (hlt.trans_le hpow)
  · rw [if_neg h]
    refine Int.ediv_eq_neg_one_of_neg_of_le (not_le.1 h) ?_
    omega

/-- A left shift is a product, which a shift of the whole width makes zero. -/
theorem toNat_shl (s v : U256) :
    (if s < 256 then v <<< s.toNat else 0).toNat = v.toNat * 2 ^ s.toNat % 2 ^ 256 := by
  by_cases h : s < 256
  · rw [if_pos h, BitVec.toNat_shiftLeft, Nat.shiftLeft_eq]
  · have hs : 256 ≤ s.toNat := not_lt.1 h
    rw [if_neg h]
    exact (Nat.mod_eq_zero_of_dvd ((Nat.pow_dvd_pow 2 hs).mul_left _)).symm

/-- A right shift is a quotient. -/
theorem toNat_shr (s v : U256) :
    (if s < 256 then v >>> s.toNat else 0).toNat = v.toNat / 2 ^ s.toNat := by
  by_cases h : s < 256
  · rw [if_pos h, BitVec.toNat_ushiftRight, Nat.shiftRight_eq_div_pow]
  · have hs : 256 ≤ s.toNat := not_lt.1 h
    rw [if_neg h]
    exact (Nat.div_eq_of_lt (v.isLt.trans_le (Nat.pow_le_pow_right (by decide) hs))).symm

/-- **When SAR is a floor**: below the width, or of a value that is not negative. -/
theorem toInt_sar_iff (s v : U256) :
    (if s < 256 then v.sshiftRight s.toNat else 0).toInt = v.toInt / 2 ^ s.toNat ↔
      s.toNat < 256 ∨ 0 ≤ v.toInt := by
  by_cases h : s < 256
  · rw [if_pos h]
    exact iff_of_true (toInt_sshiftRight_eq v s.toNat) (.inl h)
  · have hs : 256 ≤ s.toNat := not_lt.1 h
    have hzero : (0 : U256).toInt = 0 := rfl
    rw [if_neg h, toInt_ediv_two_pow v hs, hzero]
    by_cases hv : 0 ≤ v.toInt
    · rw [if_pos hv]
      exact iff_of_true rfl (.inr hv)
    · rw [if_neg hv]
      refine iff_of_false (by decide) fun hor => hor.elim (fun hlt => ?_) hv
      omega

/-- A byte counted from the most significant one. -/
theorem toNat_byte (i x : U256) :
    (if 32 ≤ i then 0 else BitVec.ofNat 256 (x.bytes.getD i.toNat 0).toNat : U256).toNat =
      if i.toNat < 32 then x.toNat / 256 ^ (31 - i.toNat) % 256 else 0 := by
  by_cases h : 32 ≤ i
  · have hi : 32 ≤ i.toNat := h
    rw [if_pos h, if_neg (by omega)]
    rfl
  · have hi : i.toNat < 32 := not_le.1 h
    rw [if_neg h, if_pos hi, List.getD_eq_getElem?_getD, U256.bytes, getElem?_toBeBytes _ hi,
      Option.getD_some, UInt8.toNat_ofNat', BitVec.toNat_ofNat]
    exact Nat.mod_eq_of_lt ((Nat.mod_lt _ (by decide)).trans (by decide))

/-! ## The opcodes -/

/-- What each opcode of the family has to push for the operands `a`, on top, and `b`. -/
structure SignedExact (c : Scope) (l : Locals) (a b : U256) (ws : List U256) : Prop where
  sdiv : Pushes opcodeSdiv c l ws fun r =>
    r = if b = 0 then 0 else BitVec.ofInt 256 (a.toInt.tdiv b.toInt)
  smod : Pushes opcodeSmod c l ws fun r =>
    r.toInt = if b = 0 then 0 else a.toInt.tmod b.toInt
  slt : Pushes opcodeSlt c l ws fun r => r = if a.toInt < b.toInt then 1 else 0
  sgt : Pushes opcodeSgt c l ws fun r => r = if b.toInt < a.toInt then 1 else 0
  signextend : Pushes opcodeSignextend c l ws fun r =>
    if a.toNat < 31 then r.toInt = (b.toNat : ℤ).bmod (2 ^ (8 * (a.toNat + 1))) else r = b
  shl : Pushes opcodeShl c l ws fun r => r.toNat = b.toNat * 2 ^ a.toNat % 2 ^ 256
  shr : Pushes opcodeShr c l ws fun r => r.toNat = b.toNat / 2 ^ a.toNat
  sar : Pushes opcodeSar c l ws fun r => r.toInt = b.toInt / 2 ^ a.toNat
  byte : Pushes opcodeByte c l ws fun r =>
    r.toNat = if a.toNat < 32 then b.toNat / 256 ^ (31 - a.toNat) % 256 else 0

theorem sdiv_eq_ofInt (a b : U256) :
    (if b = 0 then 0 else a.sdiv b) =
      if b = 0 then 0 else BitVec.ofInt 256 (a.toInt.tdiv b.toInt) := by
  by_cases h : b = 0
  · rw [if_pos h, if_pos h]
  · rw [if_neg h, if_neg h]
    refine BitVec.eq_of_toInt_eq ?_
    rw [BitVec.toInt_sdiv, BitVec.toInt_ofInt]

theorem toInt_smod (a b : U256) :
    (if b = 0 then 0 else a.srem b).toInt = if b = 0 then 0 else a.toInt.tmod b.toInt := by
  by_cases h : b = 0
  · rw [if_pos h, if_pos h]
    rfl
  · rw [if_neg h, if_neg h, BitVec.toInt_srem]

theorem signextend_spec (b x : U256) :
    if b.toNat < 31 then (signextend b x).toInt = (x.toNat : ℤ).bmod (2 ^ (8 * (b.toNat + 1)))
    else signextend b x = x := by
  by_cases h : b.toNat < 31
  · rw [if_pos h]
    refine toInt_signextend (BitVec.lt_def.2 ?_)
    exact h.trans (by decide)
  · rw [if_neg h]
    exact signextend_of_le (BitVec.le_def.2 (not_lt.1 h))

theorem wordOfBool_decide (p : Prop) [Decidable p] : wordOfBool (decide p) = if p then 1 else 0 := by
  by_cases h : p
  · rw [if_pos h, decide_eq_true h]
    rfl
  · rw [if_neg h, decide_eq_false h]
    rfl

/-- **The signed opcodes are exact but for SAR** — every one of them pushes what its definition
over the integers says, unless the shift is 256 or more and the value negative. -/
theorem signed_opcodes_exact (c : Scope) (l : Locals) (a b : U256) (ws : List U256)
    (hl : l.stack.words = a :: b :: ws) :
    SignedExact c l a b ws ↔ a.toNat < 256 ∨ 0 ≤ b.toInt := by
  constructor
  · intro h
    exact (toInt_sar_iff a b).1 ((pushes_binaryOp _ c hl).1 h.sar)
  · intro h
    exact {
      sdiv := (pushes_binaryOp _ c hl).2 (sdiv_eq_ofInt a b)
      smod := (pushes_binaryOp _ c hl).2 (toInt_smod a b)
      slt := (pushes_binaryOp _ c hl).2 (wordOfBool_decide _)
      sgt := (pushes_binaryOp _ c hl).2 (wordOfBool_decide _)
      signextend := (pushes_binaryOp _ c hl).2 (signextend_spec a b)
      shl := (pushes_binaryOp _ c hl).2 (toNat_shl a b)
      shr := (pushes_binaryOp _ c hl).2 (toNat_shr a b)
      sar := (pushes_binaryOp _ c hl).2 ((toInt_sar_iff a b).2 h)
      byte := (pushes_binaryOp _ c hl).2 (toNat_byte a b) }

/-- The least value divided by -1, and shifted by 255. -/
theorem signed_opcodes_exact_least :
    SignedExact .bare (.withStack [255, BitVec.intMin 256] (by decide)) 255 (BitVec.intMin 256) [] :=
  (signed_opcodes_exact .bare (.withStack [255, BitVec.intMin 256] (by decide)) 255
    (BitVec.intMin 256) [] rfl).2 (.inl (by decide))

/-- A shift of -1 by 256: zero is pushed, the floor is -1. -/
theorem sar_out_of_width :
    ¬∀ (c : Scope) (l : Locals) (a b : U256) (ws : List U256),
      l.stack.words = a :: b :: ws → SignedExact c l a b ws := by
  intro h
  have hsar := (h .bare (.withStack [256, -1] (by decide)) 256 (-1) [] rfl).sar
  exact absurd ((pushes_binaryOp _ _ rfl).1 hsar) (by decide +kernel)

end NeonEvm
