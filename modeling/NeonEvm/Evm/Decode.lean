import NeonEvm.Evm.Validate
import NeonEvm.Lib.Tiling

/-!
# Evm/Decode — the instructions of an EOF section

    instruction = opcode · immediate data      n bytes behind PUSHn, 2 behind RJUMP, RJUMPI, CALLF,
                                               1 + 2 · count behind RJUMPV

Decoding a section from its first byte cuts it into instructions.  The scan of the validator steps
from one to the next.
-/

namespace NeonEvm

open Exec

/-- A fact about every byte, checked byte by byte. -/
theorem forall_byte {P : UInt8 → Prop} (h : ∀ n < 256, P (UInt8.ofNat n)) (b : UInt8) : P b := by
  have hb := h b.toNat b.toNat_lt
  rwa [UInt8.ofNat_toNat] at hb

namespace Container

open opcode

/-- The size of the immediate data of the instruction at `p`. -/
def immediateLen (code : Buffer) (p : ℕ) : ℕ :=
  if code.getOrDefault p = RJUMPV then 1 + 2 * (code.getOrDefault (p + 1)).toNat
  else (Bitvec.immediateSize (code.getOrDefault p)).toNat

/-- The size of the instruction at `p`. -/
def instructionLen (code : Buffer) (p : ℕ) : ℕ := 1 + immediateLen code p

/-- `p` is the start of an instruction of the section. -/
def InstructionStart (code : Buffer) (p : ℕ) : Prop := Tiling.Start (instructionLen code) p

/-- `p` is inside the immediate data of an instruction. -/
def InImmediate (code : Buffer) (p : ℕ) : Prop := Tiling.Inside (instructionLen code) p

variable {code : Buffer}

theorem instructionLen_pos (p : ℕ) : 0 < instructionLen code p := by
  rw [instructionLen]
  omega

/-! ## The scan steps from instruction to instruction -/

theorem immediateSize_push : ∀ op : UInt8, PUSH0 < op ∧ op ≤ PUSH32 →
    op ≠ RJUMPV ∧ (Bitvec.immediateSize op).toNat = (op - PUSH0).toNat :=
  forall_byte (by decide +kernel)

theorem immediateSize_two : ∀ op : UInt8, op = RJUMP ∨ op = RJUMPI ∨ op = CALLF →
    op ≠ RJUMPV ∧ (Bitvec.immediateSize op).toNat = 2 :=
  forall_byte (by decide +kernel)

theorem immediateSize_zero : ∀ op : UInt8, ¬(PUSH0 < op ∧ op ≤ PUSH32) →
    ¬(op = RJUMP ∨ op = RJUMPI) → op ≠ CALLF → (Bitvec.immediateSize op).toNat = 0 :=
  forall_byte (by decide +kernel)

/-- The size of an instruction other than `RJUMPV`. -/
theorem instructionLen_of_ne {p n : ℕ}
    (h : code.getOrDefault p ≠ RJUMPV ∧ (Bitvec.immediateSize (code.getOrDefault p)).toNat = n) :
    instructionLen code p = 1 + n := by
  rw [instructionLen, immediateLen, if_neg h.1, h.2]

theorem instructionLen_rjumpv {p : ℕ} (h : code.getOrDefault p = RJUMPV) :
    instructionLen code p = 2 + 2 * (code.getOrDefault (p + 1)).toNat := by
  rw [instructionLen, immediateLen, if_pos h, ← Nat.add_assoc]

/-- **The scan** steps from one instruction to the next. -/
theorem scanInstruction_i {metadata : List FunctionMetadata} {s s' : Scan} {u v : Unit}
    (h : scanInstruction code metadata s u = .ok s' v) :
    s'.i = s.i + instructionLen code s.i := by
  simp only [scanInstruction, bind_eq_ok] at h
  obtain ⟨_, _, -, h⟩ := h
  split_ifs at h with hpush hjump hjumpv hcall
  · obtain ⟨_, _, -, h⟩ := bind_eq_ok.1 h
    obtain ⟨rfl, -⟩ := pure_eq_ok.1 h
    rw [instructionLen_of_ne (immediateSize_push _ hpush), Nat.add_comm 1, Nat.add_assoc]
  · obtain ⟨_, _, -, h⟩ := bind_eq_ok.1 h
    obtain ⟨_, _, -, h⟩ := bind_eq_ok.1 h
    obtain ⟨rfl, -⟩ := pure_eq_ok.1 h
    rw [instructionLen_of_ne (immediateSize_two _ (hjump.imp id .inl))]
  · simp only [bind_eq_ok] at h
    obtain ⟨_, _, -, _, _, -, _, _, -, _, _, -, h⟩ := h
    obtain ⟨rfl, -⟩ := pure_eq_ok.1 h
    rw [instructionLen_rjumpv hjumpv]
    simp only
    omega
  · simp only [bind_eq_ok] at h
    obtain ⟨_, _, -, _, _, -, h⟩ := h
    obtain ⟨rfl, -⟩ := pure_eq_ok.1 h
    rw [instructionLen_of_ne (immediateSize_two _ (.inr (.inr hcall)))]
  · obtain ⟨rfl, -⟩ := pure_eq_ok.1 h
    rw [instructionLen, immediateLen, if_neg hjumpv, immediateSize_zero _ hpush hjump hcall]

end Container

end NeonEvm
