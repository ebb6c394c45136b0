import NeonEvm.Evm.Bitmap
import NeonEvm.Evm.Opcode

/-!
# Evm/JumpTable — the destinations of the relative jumps

    RJUMP, RJUMPI    p + 3 + offset
    RJUMPV           p + 2 + 2 · count + entry j        j < count, entry j at p + 2 + 2 · j

What `check_dest` looks at, and where the three opcodes of the interpreter go: of a table it reads
every entry one byte late, and takes one index too many.
-/

namespace NeonEvm

open Exec

namespace Container

open opcode

/-- The number of entries of the table at `p`. -/
def tableCount (code : Buffer) (p : ℕ) : ℕ := (code.getOrDefault (p + 1)).toNat

/-- The destination of the entry `j` of the table at `p`. -/
def tableTarget (code : Buffer) (p j : ℕ) : ℕ :=
  usizeOfInt (p + 2 + 2 * tableCount code p + code.getI16OrDefault (p + 2 + 2 * j))

/-- The destination of a relative jump at `p`. -/
def relativeTarget (code : Buffer) (p : ℕ) : ℕ :=
  usizeOfInt (p + 3 + code.getI16OrDefault (p + 1))

variable {code : Buffer}

/-! ## Offsets -/

theorem getI16_bounds (i : ℕ) :
    -2 ^ 15 ≤ code.getI16OrDefault i ∧ code.getI16OrDefault i < 2 ^ 15 := by
  have hlt : code.getU16OrDefault i < 2 ^ 16 := by
    rw [Buffer.getU16OrDefault]
    split_ifs
    · decide
    · refine (ofBeBytes_lt _).trans_le ((Nat.pow_le_pow_right (by decide) ?_).trans
        (by norm_num : 256 ^ 2 ≤ 2 ^ 16))
      exact List.length_take_le ..
  rw [Buffer.getI16OrDefault]
  split_ifs <;> omega

/-- **Destinations are apart** where the offsets are. -/
theorem usizeOfInt_inj (base : ℤ) {a b : ℤ} (ha : -2 ^ 15 ≤ a ∧ a < 2 ^ 15) (hb : -2 ^ 15 ≤ b ∧ b < 2 ^ 15)
    (h : usizeOfInt (base + a) = usizeOfInt (base + b)) : a = b := by
  simp only [usizeOfInt, USIZE] at h
  omega

theorem usizeOfInt_of_lt {n : ℕ} (h : n < USIZE) : usizeOfInt n = n := by
  simp only [usizeOfInt, USIZE] at *
  omega

/-! ## The validator -/

/-- **`check_dest`** looks at the byte that start and offset add up to. -/
theorem checkDest_ok {b : Bitvec} {imm start length : ℕ} :
    checkDest code (some b) imm start length () = .ok b () ↔
      imm + 2 ≤ code.len ∧ usizeOfInt (start + code.getI16OrDefault imm) < length ∧
        b.isCodeSegment (usizeOfInt (start + code.getI16OrDefault imm)) () = .ok true () := by
  simp only [checkDest, bind_eq_ok, require_eq_ok, pure_eq_ok, decide_eq_true_iff]
  constructor
  · rintro ⟨_, _, ⟨himm, -⟩, _, _, ⟨rfl, -⟩, _, _, ⟨hdest, -⟩, _, _, hseg, _, _, ⟨rfl, -⟩, -⟩
    exact ⟨himm, hdest, hseg⟩
  · rintro ⟨himm, hdest, hseg⟩
    exact ⟨(), (), ⟨himm, trivial⟩, b, (), ⟨rfl, trivial⟩, (), (), ⟨hdest, trivial⟩, true, (), hseg,
      (), (), ⟨rfl, trivial⟩, rfl, trivial⟩

theorem checkDest_tableTarget {p j : ℕ} :
    tableTarget code p j = usizeOfInt (((p + 2 * tableCount code p + 2 : ℕ) : ℤ) +
      code.getI16OrDefault (p + 2 + j * 2)) := by
  rw [tableTarget, Nat.mul_comm j]
  congr 1
  push_cast
  ring

end Container

/-! ## The interpreter -/

open Container opcode

section

variable {c : Scope} {l l' : Locals} {code : Buffer} {idx : U256}

/-- **`RJUMPV` as it is run**: an index up to the count takes an entry, one byte late. -/
theorem opcodeRjumpv_run (hpop : Locals.popWord l = .ok idx l')
    (hcode : runningCode c l' = .ok code l') :
    opcodeRjumpv c l = .ok (.jump (if tableCount code l'.pc < idx.toNat
      then l'.pc + 2 + 2 * tableCount code l'.pc
      else usizeOfInt (l'.pc + 2 + 2 * tableCount code l'.pc +
        code.getI16OrDefault (l'.pc + 3 + 2 * idx.toNat)))) l' := by
  have hcount : tableCount code l'.pc < 2 ^ 8 := (code.getOrDefault (l'.pc + 1)).toNat_lt
  have hguard : U64_MAX < idx.toNat ∨ tableCount code l'.pc < idx.toNat ↔
      tableCount code l'.pc < idx.toNat := by
    refine or_iff_right_of_imp fun h => ?_
    have : 2 ^ 8 ≤ U64_MAX := by decide
    omega
  rw [opcodeRjumpv, bind_run, hpop, Outcome.andThen, bind_run, hcode, Outcome.andThen]
  show (if U64_MAX < idx.toNat ∨ tableCount code l'.pc < idx.toNat then _ else _ :
    LocalM LocalAction) l' = _
  simp only [hguard]
  split_ifs with h
  · rw [Nat.mul_comm 2]
    rfl
  · rw [show l'.pc + 3 + 2 * idx.toNat = l'.pc + 1 + 2 + 2 * idx.toNat by omega]
    show Outcome.ok (LocalAction.jump (usizeOfInt (l'.pc + 2 + tableCount code l'.pc * 2 + _))) l' = _
    rw [mul_comm ((tableCount code l'.pc : ℕ) : ℤ)]

/-- **Relative jumps** go to the destination that is validated. -/
theorem opcodeRjump_run (hcode : runningCode c l' = .ok code l') :
    opcodeRjump c l' = .ok (.jump (relativeTarget code l'.pc)) l' := by
  rw [opcodeRjump, bind_run, hcode]
  rfl

theorem opcodeRjumpi_run (hpop : Locals.popWord l = .ok idx l')
    (hcode : runningCode c l' = .ok code l') :
    opcodeRjumpi c l = .ok
      (.jump (if idx = 0 then l'.pc + 3 else relativeTarget code l'.pc)) l' := by
  rw [opcodeRjumpi, bind_run, hpop, Outcome.andThen]
  by_cases h : idx = 0
  · simp only [h, if_true]
    rfl
  · simp only [h, if_false]
    exact opcodeRjump_run hcode

end

end NeonEvm
