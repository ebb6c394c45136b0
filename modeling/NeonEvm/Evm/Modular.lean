import NeonEvm.Evm.Opcode

/-!
# Evm/Modular — ADDMOD, MULMOD and EXP are exact

    r + b mod m  =  r + b         below m
                 =  (r - m) + b   from m on, the difference wrapped

`MULMOD` and `EXP` are loops of doublings.  A turn of the first keeps `b` and the result below `m`,
so its sums never leave 256 bits; a turn of the second works modulo `2 ^ 256` throughout.
-/

namespace NeonEvm

open Exec

/-! ## What a family member leaves on the stack -/

/-- The opcode runs through, the words under its operands stay, and `P` holds of what it pushes. -/
def Pushes (op : LocalOp) (c : Scope) (l : Locals) (ws : List U256) (P : U256 → Prop) : Prop :=
  ∃ r h, op c l = .ok .continue { l with stack := ⟨r :: ws, h⟩ } ∧ P r

/-- **Three words for one** — the stack has room for the result, three words having left it. -/
theorem pushes_ternaryOp (f : U256 → U256 → U256 → U256) (c : Scope) {l : Locals} {a b m : U256}
    {ws : List U256} (hl : l.stack.words = a :: b :: m :: ws) {P : U256 → Prop} :
    Pushes (ternaryOp f) c l ws P ↔ P (f a b m) := by
  obtain ⟨rd, rr, ⟨words, hb⟩, mem, pc, cs, rs⟩ := l
  obtain rfl : words = a :: b :: m :: ws := hl
  have hroom : ws.length < STACK_LIMIT := by simp at hb; omega
  simp [Pushes, ternaryOp, bind_run, Locals.popWord, Locals.pushWord, Locals.onStack, Stack.pop,
    Stack.push, hroom, Except.map, Outcome.ok_andThen, pure_run]

/-- **Two words for one.** -/
theorem pushes_binaryOp (f : U256 → U256 → U256) (c : Scope) {l : Locals} {a b : U256}
    {ws : List U256} (hl : l.stack.words = a :: b :: ws) {P : U256 → Prop} :
    Pushes (binaryOp f) c l ws P ↔ P (f a b) := by
  obtain ⟨rd, rr, ⟨words, hb⟩, mem, pc, cs, rs⟩ := l
  obtain rfl : words = a :: b :: ws := hl
  have hroom : ws.length < STACK_LIMIT := by simp at hb; omega
  simp [Pushes, binaryOp, bind_run, Locals.popWord, Locals.pushWord, Locals.onStack, Stack.pop,
    Stack.push, hroom, Except.map, Outcome.ok_andThen, pure_run]

/-- A frame without code, over a backend without accounts. -/
def Scope.bare : Scope where
  B := .holding fun _ => []
  env := ⟨0, ⟨0, 0, 0, none⟩, 0, 0, .empty, none, .empty, false, .call⟩
  db := ⟨⟨fun _ => none, 0, 0⟩, []⟩

/-- A frame with these words on its stack. -/
def Locals.withStack (words : List U256) (h : words.length ≤ STACK_LIMIT) : Locals :=
  { Locals.new with stack := ⟨words, h⟩ }

/-! ## Sums below a modulus -/

theorem toNat_pos {m : U256} (hm : m ≠ 0) : 0 < m.toNat :=
  Nat.pos_of_ne_zero fun h => hm (BitVec.eq_of_toNat_eq h)

/-- **A sum modulo `m` without a carry** — what is subtracted in advance wraps, and the addition
wraps it back. -/
theorem toNat_addBelow {m r b : U256} (hr : r < m) (hb : b < m) :
    ((if m - r ≤ b then r - m else r) + b).toNat = (r.toNat + b.toNat) % m.toNat := by
  have hr' : r.toNat < m.toNat := hr
  have hb' : b.toNat < m.toNat := hb
  have hm := m.isLt
  have hsub : (m - r).toNat = m.toNat - r.toNat := BitVec.toNat_sub_of_le hr'.le
  by_cases h : m - r ≤ b
  · have h' : m.toNat - r.toNat ≤ b.toNat := hsub ▸ h
    have hmod : (r.toNat + b.toNat) % m.toNat = r.toNat + b.toNat - m.toNat := by
      rw [Nat.mod_eq_sub_mod (by omega), Nat.mod_eq_of_lt (by omega)]
    rw [if_pos h, BitVec.toNat_add, BitVec.toNat_sub, hmod]
    omega
  · have h' : b.toNat < m.toNat - r.toNat := hsub ▸ (not_le.1 h)
    rw [if_neg h, BitVec.toNat_add, Nat.mod_eq_of_lt (by omega), Nat.mod_eq_of_lt (by omega)]

/-- **ADDMOD on naturals** — neither difference goes below zero, and no sum reaches `m`. -/
theorem toNat_addmod {a b m : U256} (hm : m ≠ 0) (hb : b ≠ 0) :
    (addmod a b m).toNat =
      if m.toNat - b.toNat % m.toNat ≤ a.toNat % m.toNat
      then a.toNat % m.toNat - (m.toNat - b.toNat % m.toNat)
      else m.toNat - (m.toNat - b.toNat % m.toNat) + a.toNat % m.toNat := by
  have hm0 : 0 < m.toNat := toNat_pos hm
  have ha := Nat.mod_lt a.toNat hm0
  have hb' := Nat.mod_lt b.toNat hm0
  have hlt := m.isLt
  have hdiff : (m - b % m).toNat = m.toNat - b.toNat % m.toNat := by
    rw [BitVec.toNat_sub_of_le (BitVec.le_def.2 (by rw [BitVec.toNat_umod]; omega)),
      BitVec.toNat_umod]
  have hle : m - b % m ≤ a % m ↔ m.toNat - b.toNat % m.toNat ≤ a.toNat % m.toNat := by
    rw [BitVec.le_def, hdiff, BitVec.toNat_umod]
  rw [addmod, if_neg hm, if_neg hb]
  by_cases h : m - b % m ≤ a % m
  · rw [if_pos (hle.1 h)]
    simp only [if_pos h]
    rw [BitVec.toNat_sub_of_le h, hdiff, BitVec.toNat_umod]
  · rw [if_neg (hle.not.1 h)]
    simp only [if_neg h]
    rw [BitVec.toNat_add, BitVec.toNat_sub_of_le (BitVec.le_def.2 (by rw [hdiff]; omega)), hdiff,
      BitVec.toNat_umod, Nat.mod_eq_of_lt (by have := hle.not.1 h; omega)]

/-- A sum of two residues, by a difference. -/
theorem add_mod_of_lt {x y m : ℕ} (hx : x < m) (hy : y < m) :
    (x + y) % m = if m - y ≤ x then x - (m - y) else m - (m - y) + x := by
  by_cases h : m - y ≤ x
  · rw [if_pos h, Nat.mod_eq_sub_mod (by omega), Nat.mod_eq_of_lt (by omega)]
    omega
  · rw [if_neg h, Nat.mod_eq_of_lt (by omega)]
    omega

/-- **ADDMOD is exact.** -/
theorem addmod_exact (a b m : U256) :
    (addmod a b m).toNat = if m = 0 then 0 else (a.toNat + b.toNat) % m.toNat := by
  by_cases hm : m = 0
  · rw [if_pos hm, addmod, if_pos hm]
    rfl
  rw [if_neg hm]
  by_cases hb : b = 0
  · rw [addmod, if_neg hm, if_pos hb, BitVec.toNat_umod, hb]
    rfl
  · rw [toNat_addmod hm hb, Nat.add_mod,
      add_mod_of_lt (Nat.mod_lt _ (toNat_pos hm)) (Nat.mod_lt _ (toNat_pos hm))]

/-! ## Turns -/

/-- The variables of a loop of doublings. -/
structure Doubling where
  a : U256
  b : U256
  result : U256

namespace Doubling

/-- A turn of the loop of `MULMOD`. -/
def mulTurn (m : U256) (s : Doubling) : Doubling where
  a := s.a >>> 1
  b := s.b + (if m - s.b ≤ s.b then s.b - m else s.b)
  result :=
    if s.a &&& 1 ≠ 0 then (if m - s.result ≤ s.b then s.result - m else s.result) + s.b
    else s.result

/-- A turn of the loop of `EXP`, which stops at the last bit of `b`. -/
def expTurn (s : Doubling) : Doubling :=
  if 1 < s.b then
    ⟨s.a * s.a, s.b >>> 1, if s.b &&& 1 = 1 then s.result * s.a else s.result⟩
  else s

/-- What `EXP` makes of the last bit. -/
def expLast (s : Doubling) : U256 := if s.b = 1 then s.result * s.a else s.result

end Doubling

open Doubling

theorem toNat_shiftRight_one (a : U256) : (a >>> 1).toNat = a.toNat / 2 := by
  rw [BitVec.toNat_ushiftRight, Nat.shiftRight_eq_div_pow, pow_one]

theorem toNat_and_one (a : U256) : (a &&& 1).toNat = a.toNat % 2 := by
  rw [BitVec.toNat_and]
  exact Nat.and_one_is_mod _

/-- Halving on and on: the number behind `k` turns. -/
theorem toNat_mulTurn_iterate (m : U256) (s : Doubling) (k : ℕ) :
    ((mulTurn m)^[k] s).a.toNat = s.a.toNat / 2 ^ k := by
  induction k generalizing s with
  | zero => simp
  | succ k ih =>
    rw [Function.iterate_succ_apply, ih]
    change (s.a >>> 1).toNat / 2 ^ k = _
    rw [toNat_shiftRight_one, Nat.div_div_eq_div_mul, pow_succ']

/-- **256 turns use up a word.** -/
theorem mulTurn_iterate_ends (m : U256) (s : Doubling) : ((mulTurn m)^[256] s).a = 0 := by
  refine BitVec.eq_of_toNat_eq ?_
  rw [toNat_mulTurn_iterate, Nat.div_eq_of_lt s.a.isLt]
  rfl

/-- A turn without a bit to add keeps the result. -/
theorem mulTurn_iterate_result {m : U256} {s : Doubling} (h : s.a = 0) (k : ℕ) :
    ((mulTurn m)^[k] s).result = s.result := by
  induction k generalizing s with
  | zero => rfl
  | succ k ih =>
    have ha : (mulTurn m s).a = 0 := by
      change s.a >>> 1 = 0
      rw [h]
      rfl
    have hr : (mulTurn m s).result = s.result := by
      change (if s.a &&& 1 ≠ 0 then _ else _) = _
      rw [h]
      exact if_neg (by decide)
    rw [Function.iterate_succ_apply, ih ha, hr]

/-- The loop of `MULMOD` is its turns. -/
theorem mulmodLoop_eq (m : U256) (fuel : ℕ) (s : Doubling) :
    mulmodLoop m fuel s.a s.b s.result = ((mulTurn m)^[fuel] s).result := by
  induction fuel generalizing s with
  | zero => rfl
  | succ fuel ih =>
    by_cases h : s.a = 0
    · rw [mulmodLoop, if_pos h, mulTurn_iterate_result h]
    · rw [mulmodLoop, if_neg h, Function.iterate_succ_apply, ← ih]
      rfl

/-- The loop of `EXP` is its turns, and the last bit. -/
theorem expLoop_eq {fuel : ℕ} {s : Doubling} (hend : ¬1 < (expTurn^[fuel] s).b) :
    expLoop (fuel + 1) s.a s.b s.result = expLast (expTurn^[fuel] s) := by
  induction fuel generalizing s with
  | zero =>
    rw [expLoop]
    exact if_neg hend
  | succ fuel ih =>
    rw [Function.iterate_succ_apply] at hend ⊢
    by_cases h : 1 < s.b
    · rw [expLoop, if_pos h, ← ih hend, expTurn, if_pos h]
    · have hstay : expTurn s = s := if_neg h
      rw [hstay] at hend ⊢
      rw [← ih hend, expLoop, if_neg h, expLoop, if_neg h]

/-- **255 turns leave the last bit.** -/
theorem expTurn_iterate_ends (s : Doubling) (k : ℕ) :
    (expTurn^[k] s).b.toNat ≤ 1 ∨ (expTurn^[k] s).b.toNat = s.b.toNat / 2 ^ k := by
  induction k generalizing s with
  | zero => exact .inr (by simp)
  | succ k ih =>
    rw [Function.iterate_succ_apply]
    by_cases h : 1 < s.b
    · have hb : (expTurn s).b.toNat = s.b.toNat / 2 := by
        rw [expTurn, if_pos h]
        exact toNat_shiftRight_one s.b
      refine (ih (expTurn s)).imp_right fun h' => ?_
      rw [h', hb, Nat.div_div_eq_div_mul, pow_succ']
    · have hstay : expTurn s = s := if_neg h
      rw [hstay, Function.iterate_fixed hstay]
      exact .inl (by simpa [BitVec.lt_def] using h)

theorem expTurn_iterate_done (s : Doubling) {k : ℕ} (hk : 255 ≤ k) : ¬1 < (expTurn^[k] s).b := by
  rw [BitVec.lt_def, not_lt]
  refine (expTurn_iterate_ends s k).elim id fun h => ?_
  have hpow : 2 ^ 255 ≤ 2 ^ k := Nat.pow_le_pow_right (by decide) hk
  have hlt : s.b.toNat / 2 ^ k ≤ 1 := by
    rw [← Nat.lt_succ_iff, Nat.div_lt_iff_lt_mul (by positivity)]
    have := s.b.isLt
    omega
  exact h ▸ hlt

/-! ## What the turns keep -/

/-- The state of `MULMOD` between two turns: residues, and the product still to be made. -/
structure Doubling.Below (m : U256) (p : ℕ) (s : Doubling) : Prop where
  b_lt : s.b < m
  result_lt : s.result < m
  rest : s.result.toNat + s.a.toNat * s.b.toNat ≡ p [MOD m.toNat]

/-- A turn of `MULMOD` on naturals: no sum of it is lost. -/
theorem toNat_mulTurn {m : U256} {s : Doubling} (hb : s.b < m) (hr : s.result < m) :
    (mulTurn m s).b.toNat = (s.b.toNat + s.b.toNat) % m.toNat ∧
      (mulTurn m s).result.toNat = (s.result.toNat + s.a.toNat % 2 * s.b.toNat) % m.toNat := by
  refine ⟨?_, ?_⟩
  · change (s.b + _).toNat = _
    rw [BitVec.add_comm, toNat_addBelow hb hb]
  · change (if s.a &&& 1 ≠ 0 then _ else s.result).toNat = _
    have hbit : s.a &&& 1 = 0 ↔ s.a.toNat % 2 = 0 := by
      rw [BitVec.toNat_eq, toNat_and_one]
      rfl
    by_cases h : s.a &&& 1 = 0
    · rw [if_neg (not_not.2 h), hbit.1 h, Nat.zero_mul, Nat.add_zero, Nat.mod_eq_of_lt hr]
    · have hone : s.a.toNat % 2 = 1 := by
        have := hbit.not.1 h
        omega
      rw [if_pos h, toNat_addBelow hr hb, hone, Nat.one_mul]

/-- **A turn of `MULMOD` keeps its invariant.** -/
theorem Doubling.Below.mulTurn {m : U256} {p : ℕ} {s : Doubling} (h : s.Below m p) :
    (mulTurn m s).Below m p := by
  obtain ⟨hb, hr⟩ := toNat_mulTurn h.b_lt h.result_lt
  have hm0 : 0 < m.toNat := Nat.zero_lt_of_lt (BitVec.lt_def.1 h.b_lt)
  refine ⟨?_, ?_, ?_⟩
  · rw [BitVec.lt_def, hb]
    exact Nat.mod_lt _ hm0
  · rw [BitVec.lt_def, hr]
    exact Nat.mod_lt _ hm0
  · refine Nat.ModEq.trans ?_ h.rest
    have ha : (Doubling.mulTurn m s).a.toNat = s.a.toNat / 2 := toNat_shiftRight_one s.a
    rw [hr, hb, ha]
    calc (s.result.toNat + s.a.toNat % 2 * s.b.toNat) % m.toNat
          + s.a.toNat / 2 * ((s.b.toNat + s.b.toNat) % m.toNat)
        ≡ s.result.toNat + s.a.toNat % 2 * s.b.toNat
          + s.a.toNat / 2 * (s.b.toNat + s.b.toNat) [MOD m.toNat] :=
          (Nat.mod_modEq _ _).add ((Nat.mod_modEq _ _).mul_left _)
      _ = s.result.toNat + (s.a.toNat % 2 + 2 * (s.a.toNat / 2)) * s.b.toNat := by ring
      _ = s.result.toNat + s.a.toNat * s.b.toNat := by rw [Nat.mod_add_div]

theorem Doubling.Below.iterate {m : U256} {p : ℕ} {s : Doubling} (h : s.Below m p) (k : ℕ) :
    ((Doubling.mulTurn m)^[k] s).Below m p := by
  induction k generalizing s with
  | zero => exact h
  | succ k ih => exact ih h.mulTurn

/-- Where the loop of `MULMOD` starts: the smaller factor is halved, the other one reduced. -/
def Doubling.mulStart (a b m : U256) : Doubling :=
  let (a, b) := if b < a then (b, a) else (a, b)
  ⟨a, if m ≤ b then b % m else b, 0⟩

theorem Doubling.mulStart_below (a b : U256) {m : U256} (hm : m ≠ 0) :
    (mulStart a b m).Below m (a.toNat * b.toNat) := by
  have hm0 := toNat_pos hm
  have hred : ∀ b : U256, (if m ≤ b then b % m else b).toNat = b.toNat % m.toNat := by
    intro b
    by_cases h : m ≤ b
    · rw [if_pos h, BitVec.toNat_umod]
    · rw [if_neg h, Nat.mod_eq_of_lt (by simpa [BitVec.le_def] using h)]
  have hbelow : ∀ a b : U256, (⟨a, if m ≤ b then b % m else b, 0⟩ : Doubling).Below m
      (a.toNat * b.toNat) := by
    intro a b
    refine ⟨?_, BitVec.lt_def.2 hm0, ?_⟩
    · rw [BitVec.lt_def, hred]
      exact Nat.mod_lt _ hm0
    · change 0 + a.toNat * (if m ≤ b then b % m else b).toNat ≡ _ [MOD _]
      rw [hred, Nat.zero_add]
      exact (Nat.mod_modEq _ _).mul_left _
  rw [mulStart]
  by_cases h : b < a
  · rw [if_pos h, Nat.mul_comm]
    exact hbelow b a
  · rw [if_neg h]
    exact hbelow a b

/-- `MULMOD` is its turns. -/
theorem mulmod_eq {a b m : U256} (hm : m ≠ 0) :
    mulmod a b m = ((mulTurn m)^[256] (mulStart a b m)).result := by
  rw [mulmod, if_neg hm, ← mulmodLoop_eq, mulStart]

/-- **MULMOD is exact.** -/
theorem mulmod_exact (a b m : U256) :
    (mulmod a b m).toNat = if m = 0 then 0 else (a.toNat * b.toNat) % m.toNat := by
  by_cases hm : m = 0
  · rw [if_pos hm, mulmod, if_pos hm]
    rfl
  · have h := (mulStart_below a b hm).iterate 256
    have hrest := h.rest
    rw [mulTurn_iterate_ends] at hrest
    have hzero : (0 : U256).toNat = 0 := rfl
    rw [hzero, Nat.zero_mul, Nat.add_zero] at hrest
    rw [if_neg hm, mulmod_eq hm, ← Nat.mod_eq_of_lt (BitVec.lt_def.1 h.result_lt)]
    exact hrest

/-- **A turn of `EXP` keeps the power** modulo `2 ^ 256`. -/
theorem expTurn_power (s : Doubling) :
    (expTurn s).result.toNat * (expTurn s).a.toNat ^ (expTurn s).b.toNat ≡
      s.result.toNat * s.a.toNat ^ s.b.toNat [MOD 2 ^ 256] := by
  by_cases h : 1 < s.b
  · rw [expTurn, if_pos h]
    have hsq : (s.a * s.a).toNat ≡ s.a.toNat ^ 2 [MOD 2 ^ 256] := by
      rw [BitVec.toNat_mul, sq]
      exact Nat.mod_modEq _ _
    have hbit : (if s.b &&& 1 = 1 then s.result * s.a else s.result).toNat ≡
        s.result.toNat * s.a.toNat ^ (s.b.toNat % 2) [MOD 2 ^ 256] := by
      have hone : s.b &&& 1 = 1 ↔ s.b.toNat % 2 = 1 := by
        rw [BitVec.toNat_eq, toNat_and_one]
        rfl
      by_cases h1 : s.b &&& 1 = 1
      · rw [if_pos h1, hone.1 h1, pow_one, BitVec.toNat_mul]
        exact Nat.mod_modEq _ _
      · have h0 : s.b.toNat % 2 = 0 := by
          have := hone.not.1 h1
          omega
        rw [if_neg h1, h0, pow_zero, Nat.mul_one]
    calc (if s.b &&& 1 = 1 then s.result * s.a else s.result).toNat
          * (s.a * s.a).toNat ^ (s.b >>> 1).toNat
        ≡ s.result.toNat * s.a.toNat ^ (s.b.toNat % 2) * (s.a.toNat ^ 2) ^ (s.b >>> 1).toNat
          [MOD 2 ^ 256] := hbit.mul (hsq.pow _)
      _ = s.result.toNat * s.a.toNat ^ (s.b.toNat % 2 + 2 * (s.b.toNat / 2)) := by
          rw [toNat_shiftRight_one, ← pow_mul, pow_add, Nat.mul_assoc]
      _ = s.result.toNat * s.a.toNat ^ s.b.toNat := by rw [Nat.mod_add_div]
  · have hstay : expTurn s = s := if_neg h
    rw [hstay]

theorem expTurn_iterate_power (s : Doubling) (k : ℕ) :
    (expTurn^[k] s).result.toNat * (expTurn^[k] s).a.toNat ^ (expTurn^[k] s).b.toNat ≡
      s.result.toNat * s.a.toNat ^ s.b.toNat [MOD 2 ^ 256] := by
  induction k generalizing s with
  | zero => rfl
  | succ k ih => exact (ih (expTurn s)).trans (expTurn_power s)

/-- The last bit of `EXP`. -/
theorem toNat_expLast {s : Doubling} (h : ¬1 < s.b) :
    (expLast s).toNat ≡ s.result.toNat * s.a.toNat ^ s.b.toNat [MOD 2 ^ 256] := by
  have hle : s.b.toNat ≤ 1 := by simpa [BitVec.lt_def] using h
  by_cases h1 : s.b = 1
  · have hone : s.b.toNat = 1 := by
      rw [h1]
      rfl
    rw [expLast, if_pos h1, hone, pow_one, BitVec.toNat_mul]
    exact Nat.mod_modEq _ _
  · have h0 : s.b.toNat = 0 := by
      have : s.b.toNat ≠ 1 := fun h => h1 (BitVec.eq_of_toNat_eq h)
      omega
    rw [expLast, if_neg h1, h0, pow_zero, Nat.mul_one]

/-- **EXP is exact** modulo `2 ^ 256`, whatever the fuel from 256 on. -/
theorem expLoop_exact (a b : U256) {fuel : ℕ} (hfuel : 256 ≤ fuel) :
    (expLoop fuel a b 1).toNat = a.toNat ^ b.toNat % 2 ^ 256 := by
  obtain ⟨k, rfl⟩ : ∃ k, fuel = k + 1 := ⟨fuel - 1, by omega⟩
  have hdone := expTurn_iterate_done ⟨a, b, 1⟩ (by omega : 255 ≤ k)
  have hlast := (toNat_expLast hdone).trans (expTurn_iterate_power ⟨a, b, 1⟩ k)
  rw [expLoop_eq (s := ⟨a, b, 1⟩) hdone, ← Nat.mod_eq_of_lt (expLast _).isLt]
  refine hlast.trans ?_
  change 1 * a.toNat ^ b.toNat % 2 ^ 256 = _
  rw [Nat.one_mul]

/-! ## The three opcodes -/

/-- **Modular arithmetic is exact** — `ADDMOD` and `MULMOD` push the residue of the sum and of the
product of the naturals, `EXP` the power modulo `2 ^ 256`; both loops are over after 256 turns, and
every sum and difference made on the way to a residue is one of naturals below `2 ^ 256`, or wraps
back to it. -/
theorem modular_arithmetic_exact (c : Scope) (l : Locals) (a b m : U256) (ws : List U256) :
    (l.stack.words = a :: b :: m :: ws →
      Pushes opcodeAddmod c l ws (fun r =>
        r.toNat = if m = 0 then 0 else (a.toNat + b.toNat) % m.toNat) ∧
      Pushes opcodeMulmod c l ws (fun r =>
        r.toNat = if m = 0 then 0 else (a.toNat * b.toNat) % m.toNat)) ∧
    (l.stack.words = a :: b :: ws →
      Pushes opcodeExp c l ws (fun r => r.toNat = a.toNat ^ b.toNat % 2 ^ 256)) ∧
    (∀ s, ((mulTurn m)^[256] s).a = 0 ∧
      ∀ fuel, 256 ≤ fuel →
        mulmodLoop m fuel s.a s.b s.result = ((mulTurn m)^[256] s).result) ∧
    (∀ s, ¬1 < (expTurn^[255] s).b ∧
      ∀ fuel, 256 ≤ fuel → expLoop fuel s.a s.b s.result = expLast (expTurn^[255] s)) ∧
    (m ≠ 0 → b ≠ 0 →
      (addmod a b m).toNat =
        if m.toNat - b.toNat % m.toNat ≤ a.toNat % m.toNat
        then a.toNat % m.toNat - (m.toNat - b.toNat % m.toNat)
        else m.toNat - (m.toNat - b.toNat % m.toNat) + a.toNat % m.toNat) ∧
    (m ≠ 0 → ∀ k s, (mulTurn m)^[k] (mulStart a b m) = s →
      s.b < m ∧ s.result < m ∧
      (mulTurn m s).b.toNat = (s.b.toNat + s.b.toNat) % m.toNat ∧
      (mulTurn m s).result.toNat = (s.result.toNat + s.a.toNat % 2 * s.b.toNat) % m.toNat) := by
  refine ⟨fun hl => ⟨?_, ?_⟩, fun hl => ?_, fun s => ⟨mulTurn_iterate_ends m s, ?_⟩,
    fun s => ⟨expTurn_iterate_done s le_rfl, ?_⟩, toNat_addmod, ?_⟩
  · exact (pushes_ternaryOp addmod c hl).2 (addmod_exact a b m)
  · exact (pushes_ternaryOp mulmod c hl).2 (mulmod_exact a b m)
  · exact (pushes_binaryOp _ c hl).2 (expLoop_exact a b (Nat.le_succ 256))
  · intro fuel hfuel
    obtain ⟨k, rfl⟩ := Nat.exists_eq_add_of_le' hfuel
    rw [mulmodLoop_eq, Function.iterate_add_apply,
      mulTurn_iterate_result (mulTurn_iterate_ends m s)]
  · intro fuel hfuel
    obtain ⟨k, rfl⟩ := Nat.exists_eq_add_of_le' hfuel
    have hdone := expTurn_iterate_done s le_rfl
    have hstay : expTurn (expTurn^[255] s) = expTurn^[255] s := if_neg hdone
    have hmore : expTurn^[k + 255] s = expTurn^[255] s := by
      rw [Function.iterate_add_apply, Function.iterate_fixed hstay]
    have hdone' : ¬1 < (expTurn^[k + 255] s).b := by
      rw [hmore]
      exact hdone
    rw [← hmore, ← expLoop_eq hdone']
  · rintro hm k s rfl
    have h := (mulStart_below a b hm).iterate k
    exact ⟨h.b_lt, h.result_lt, toNat_mulTurn h.b_lt h.result_lt⟩

/-- The greatest word squared, modulo the word below it. -/
theorem modular_arithmetic_exact_greatest :
    Pushes opcodeMulmod .bare (.withStack [-1, -1, -2] (by decide)) [] (fun r => r.toNat = 1) := by
  obtain ⟨r, h, hrun, hr⟩ :=
    ((modular_arithmetic_exact .bare (.withStack [-1, -1, -2] (by decide)) (-1) (-1) (-2)
      []).1 rfl).2
  exact ⟨r, h, hrun, hr.trans (by decide +kernel)⟩

end NeonEvm
