import NeonEvm.Evm.OpcodeTable
import NeonEvm.Evm.Scan

/-!
# Evm/JumpAgreement — validator and interpreter on the relative jumps

    RJUMP, RJUMPI    goes where the scan and the control flow look
    RJUMPV           does so iff reading an entry one byte late makes no difference

One statement for each opcode, at the position that the interpreter is at.
-/

namespace NeonEvm

open Exec Container opcode

/-- **What the validator examines** for the jump at `p`: the scan passes the instruction, if it is
complete, exactly where the destinations are code, and the control flow visits what `visit` says. -/
structure Examines (code : Buffer) (p : ℕ) (dests : List ℕ) (visit : ℕ → Walk → Visit) : Prop where
  scanned : ∀ metadata b s, s.i = p → p < code.len → Bitvec.eofCodeBitmap code () = .ok b () →
    (s.analysis = none ∨ s.analysis = some b) →
      ((∃ s', scanInstruction code metadata s () = .ok s' ()) ↔
        p + instructionLen code p ≤ code.len ∧
          (code.getOrDefault p = RJUMPV → tableCount code p ≠ 0) ∧
            ∀ q ∈ dests, q < code.len ∧ b.isCodeSegment q () = .ok true ())
  followed : ∀ metadata current terminal height w,
    followInstruction code metadata current (code.getOrDefault p) terminal p height w () =
      .ok (visit height w) ()

section

variable [Platform]

/-- The opcode that EOF code has at the program counter jumps to `target`. -/
def JumpsTo (c : Scope) (l l' : Locals) (code : Buffer) (target : ℕ) : Prop :=
  ∃ op, eofOpcodeOf (code.getOrDefault l.pc) = .loc op ∧ op c l = .ok (.jump target) l'

/-- `RJUMP` goes to the destination that is examined. -/
structure RjumpAgrees (c : Scope) (l : Locals) (code : Buffer) : Prop where
  goes : JumpsTo c l l code (relativeTarget code l.pc)
  examined : Examines code l.pc [relativeTarget code l.pc] fun height w =>
    .goOn ⟨relativeTarget code l.pc, height⟩ w

/-- `RJUMPI` goes to the destination that is examined, or falls through. -/
structure RjumpiAgrees (c : Scope) (l l' : Locals) (code : Buffer) (condition : U256) : Prop where
  goes : JumpsTo c l l' code (if condition = 0 then l.pc + 3 else relativeTarget code l.pc)
  examined : Examines code l.pc [relativeTarget code l.pc] fun height w =>
    .goOn ⟨l.pc + 3, height⟩
      { w with worklist := ⟨relativeTarget code l.pc, height⟩ :: w.worklist }

/-- `RJUMPV` goes to the destination that is examined for the entry of its index, or falls through
where there is none. -/
structure RjumpvAgrees (c : Scope) (l l' : Locals) (code : Buffer) (idx : U256) : Prop where
  goes : JumpsTo c l l' code (if idx.toNat < tableCount code l.pc then tableTarget code l.pc idx.toNat
    else l.pc + 2 + 2 * tableCount code l.pc)
  examined : Examines code l.pc ((List.range (tableCount code l.pc)).map (tableTarget code l.pc))
    fun height w => .goOn ⟨l.pc + 2 + 2 * tableCount code l.pc, height⟩ { w with
      worklist := ((List.range (tableCount code l.pc)).map fun j =>
        Item.mk (tableTarget code l.pc j) height).reverse ++ w.worklist }

end

/-! ## The validator -/

section

variable {code : Buffer} {p : ℕ} {visit : ℕ → Walk → Visit}

/-- **The scan examines the destinations** of the instruction. -/
theorem Examines.of_jumpDests {dests : List ℕ} (hdests : jumpDests code p = dests)
    (hcall : code.getOrDefault p ≠ CALLF)
    (hvisit : ∀ metadata current terminal height w,
      followInstruction code metadata current (code.getOrDefault p) terminal p height w () =
        .ok (visit height w) ()) : Examines code p dests visit where
  scanned metadata b s hs hp hb ha := by
    subst hs hdests
    simp only [scanInstruction_eq_ok hb ha hp]
    constructor
    · rintro ⟨s', -, h⟩
      exact ⟨h.complete, h.table, h.dest⟩
    · rintro ⟨hcomplete, htable, hdest⟩
      exact ⟨_, rfl, hcomplete, htable, hdest, fun h => absurd h hcall⟩
  followed := hvisit

theorem examines_rjump (hop : code.getOrDefault p = RJUMP) :
    Examines code p [relativeTarget code p] fun height w => .goOn ⟨relativeTarget code p, height⟩ w := by
  refine .of_jumpDests (jumpDests_jump (.inl hop)) (hop ▸ by decide) ?_
  rw [hop]
  intros
  rfl

theorem examines_rjumpi (hop : code.getOrDefault p = RJUMPI) :
    Examines code p [relativeTarget code p] fun height w => .goOn ⟨p + 3, height⟩
      { w with worklist := ⟨relativeTarget code p, height⟩ :: w.worklist } := by
  refine .of_jumpDests (jumpDests_jump (.inr hop)) (hop ▸ by decide) ?_
  rw [hop]
  intros
  rfl

theorem examines_rjumpv (hop : code.getOrDefault p = RJUMPV) :
    Examines code p ((List.range (tableCount code p)).map (tableTarget code p)) fun height w =>
      .goOn ⟨p + 2 + 2 * tableCount code p, height⟩ { w with
        worklist := ((List.range (tableCount code p)).map fun j =>
          Item.mk (tableTarget code p j) height).reverse ++ w.worklist } := by
  refine .of_jumpDests (jumpDests_table hop) (hop ▸ by decide) ?_
  rw [hop]
  intros
  rfl

end

/-! ## The interpreter -/

section

variable [Platform] {c : Scope} {l l' : Locals} {code : Buffer} {idx : U256} {target : ℕ}

omit [Platform] in
/-- Popping a word changes neither the position nor the code. -/
theorem popWord_stays (hpop : Locals.popWord l = .ok idx l') (hcode : runningCode c l = .ok code l) :
    l'.pc = l.pc ∧ runningCode c l' = .ok code l' := by
  rw [Locals.popWord, Locals.onStack] at hpop
  cases hstack : l.stack.pop with
  | error e =>
    rw [hstack] at hpop
    cases hpop
  | ok r =>
    rw [hstack] at hpop
    obtain ⟨-, rfl⟩ := Outcome.ok.inj hpop
    refine ⟨rfl, ?_⟩
    have hget : getCode c.env l = .ok code := by
      rw [runningCode] at hcode
      cases hget : getCode c.env l with
      | error f =>
        rw [hget] at hcode
        cases hcode
      | ok code' =>
        rw [hget] at hcode
        rw [(Outcome.ok.inj hcode).1]
    rw [runningCode, show getCode c.env { l with stack := r.2 } = .ok code from hget]

/-- The table has the three opcodes. -/
theorem eofOpcodeOf_relative : eofOpcodeOf RJUMP = .loc opcodeRjump ∧
    eofOpcodeOf RJUMPI = .loc opcodeRjumpi ∧ eofOpcodeOf RJUMPV = .loc opcodeRjumpv :=
  ⟨rfl, rfl, rfl⟩

/-- Where an opcode of the table goes is where it jumps. -/
theorem jumpsTo_iff {op : LocalOp} {taken : ℕ} (hop : eofOpcodeOf (code.getOrDefault l.pc) = .loc op)
    (hrun : op c l = .ok (.jump taken) l') : JumpsTo c l l' code target ↔ taken = target := by
  constructor
  · rintro ⟨op', hop', hrun'⟩
    obtain rfl := Opcode.loc.inj (hop.symm.trans hop')
    rw [hrun, Outcome.ok.injEq, LocalAction.jump.injEq] at hrun'
    exact hrun'.1
  · rintro rfl
    exact ⟨op, hop, hrun⟩

end

/-! ## Both -/

/-- **Validator and interpreter agree** on `RJUMP` and on `RJUMPI` always, and on a jump table
exactly where reading the entry one byte late makes no difference, and the index behind the last
entry, if it is the one that is taken, finds no offset. -/
theorem jump_tables_agree [Platform] (c : Scope) (l : Locals) (code : Buffer)
    (hcode : runningCode c l = .ok code l) (hlen : code.len < 2 ^ 63) :
    (code.getOrDefault l.pc = RJUMP → RjumpAgrees c l code) ∧
    (code.getOrDefault l.pc = RJUMPI → ∀ condition l', Locals.popWord l = .ok condition l' →
      RjumpiAgrees c l l' code condition) ∧
    (code.getOrDefault l.pc = RJUMPV → ∀ idx l', Locals.popWord l = .ok idx l' →
      (RjumpvAgrees c l l' code idx ↔
        (idx.toNat < tableCount code l.pc →
          code.getI16OrDefault (l.pc + 2 + 2 * idx.toNat) =
            code.getI16OrDefault (l.pc + 3 + 2 * idx.toNat)) ∧
        (idx.toNat = tableCount code l.pc →
          code.getI16OrDefault (l.pc + 3 + 2 * idx.toNat) = 0))) := by
  obtain ⟨hrjump, hrjumpi, hrjumpv⟩ := eofOpcodeOf_relative
  refine ⟨fun hop => ⟨?_, examines_rjump hop⟩, fun hop condition l' hpop =>
    ⟨?_, examines_rjumpi hop⟩, fun hop idx l' hpop => ?_⟩
  · exact ⟨opcodeRjump, hop ▸ hrjump, opcodeRjump_run hcode⟩
  · obtain ⟨hpc, hcode'⟩ := popWord_stays hpop hcode
    refine ⟨opcodeRjumpi, hop ▸ hrjumpi, ?_⟩
    rw [← hpc]
    exact opcodeRjumpi_run hpop hcode'
  · obtain ⟨hpc, hcode'⟩ := popWord_stays hpop hcode
    have hrun := opcodeRjumpv_run hpop hcode'
    rw [hpc] at hrun
    have hgoes (target : ℕ) : JumpsTo c l l' code target ↔ _ := jumpsTo_iff (hop ▸ hrjumpv) hrun
    have hagrees : RjumpvAgrees c l l' code idx ↔ JumpsTo c l l' code (if idx.toNat <
        tableCount code l.pc then tableTarget code l.pc idx.toNat
        else l.pc + 2 + 2 * tableCount code l.pc) :=
      ⟨fun h => h.goes, fun h => ⟨h, examines_rjumpv hop⟩⟩
    have hpos : l.pc < code.len := by
      by_contra h
      rw [Buffer.getOrDefault_of_len_le (not_lt.1 h)] at hop
      exact absurd hop (by decide)
    have hcount : tableCount code l.pc < 2 ^ 8 := (code.getOrDefault (l.pc + 1)).toNat_lt
    have hself : usizeOfInt ((l.pc + 2 + 2 * tableCount code l.pc : ℕ) : ℤ) =
        l.pc + 2 + 2 * tableCount code l.pc := usizeOfInt_of_lt (by rw [USIZE]; omega)
    rw [hagrees, hgoes]
    -- below the count, at the count, above it
    obtain hlt | heq | hgt := Nat.lt_trichotomy idx.toNat (tableCount code l.pc)
    · rw [if_neg (by omega), if_pos hlt, tableTarget]
      refine ⟨fun h => ⟨fun _ => ?_, fun h => absurd h hlt.ne⟩, fun h => by rw [h.1 hlt]⟩
      exact (usizeOfInt_inj _ (getI16_bounds _) (getI16_bounds _) h).symm
    · rw [if_neg (by omega), if_neg (by omega)]
      refine ⟨fun h => ⟨fun h => absurd heq h.ne, fun _ => ?_⟩, fun h => ?_⟩
      · refine usizeOfInt_inj (l.pc + 2 + 2 * tableCount code l.pc : ℕ) (getI16_bounds _)
          (by decide) ?_
        rw [add_zero, hself]
        exact_mod_cast h
      · rw [h.2 heq, add_zero]
        exact_mod_cast hself
    · rw [if_pos hgt, if_neg (by omega)]
      exact iff_of_true rfl ⟨fun h => absurd hgt h.not_gt, fun h => absurd hgt h.not_gt⟩

/-- The scope of a frame that runs `code`. -/
def jumpScope (code : Bytes) : Scope where
  B := .holding fun _ => []
  env := ⟨0, ⟨0, 0, 0, none⟩, 0, 0, .owned code, none, .empty, false, .call⟩
  db := ⟨⟨fun _ => none, 0, 0⟩, []⟩

/-- A frame at its first byte with the index 0 on the stack. -/
def indexedLocals : Locals := { Locals.new with stack := ⟨[0], by decide⟩ }

/-- Where every byte of the table is the same, an entry read late is the entry. -/
theorem jump_tables_agree_zeros : ∃ _ : Platform,
    RjumpvAgrees (jumpScope [RJUMPV, 1, 0, 0, 0, 0]) indexedLocals Locals.new
      (.owned [RJUMPV, 1, 0, 0, 0, 0]) 0 :=
  ⟨.bare, ((@jump_tables_agree .bare (jumpScope [RJUMPV, 1, 0, 0, 0, 0]) indexedLocals
    (.owned [RJUMPV, 1, 0, 0, 0, 0]) rfl (by decide)).2.2 rfl 0 Locals.new rfl).2
      ⟨fun _ => by decide, fun h => absurd h (by decide)⟩⟩

/-- The entry 0 of a table that holds the offset 1: the interpreter reads the bytes behind it. -/
theorem jump_table_read_late : ∃ _ : Platform,
    ¬∀ (c : Scope) (l l' : Locals) (code : Buffer) (idx : U256), runningCode c l = .ok code l →
      code.getOrDefault l.pc = RJUMPV → Locals.popWord l = .ok idx l' →
        RjumpvAgrees c l l' code idx := by
  let _ : Platform := .bare
  refine ⟨.bare, fun h => ?_⟩
  obtain ⟨op, hop, hrun⟩ := (h (jumpScope [RJUMPV, 1, 0, 1, 0, 0]) indexedLocals Locals.new
    (.owned [RJUMPV, 1, 0, 1, 0, 0]) 0 rfl rfl rfl).goes
  obtain rfl := Opcode.loc.inj (eofOpcodeOf_relative.2.2.symm.trans hop)
  rw [@opcodeRjumpv_run _ _ _ (.owned [RJUMPV, 1, 0, 1, 0, 0]) 0 rfl rfl] at hrun
  exact absurd hrun (by decide +kernel)

end NeonEvm
