import NeonEvm.Evm.Reachability
import NeonEvm.Evm.OpcodeTable

/-!
# Evm/Accepted — the sections that are accepted, and the opcodes in them

    accepted  ↔  instructions in order · a terminal end · a typing · the counters agree

None of the checks asks for a deprecated opcode, and only the typing for an undefined one: what
control does not reach may hold any.
-/

namespace NeonEvm

open Exec

namespace Container

open opcode Tiling OpcodeInfo

/-- Every instruction of a section is in order. -/
def InstructionsOk (code : Buffer) (metadata : List FunctionMetadata) : Prop :=
  ∀ b, Bitvec.eofCodeBitmap code () = .ok b () → ∀ p < code.len, InstructionStart code p →
    InstructionOk code metadata b p

/-- The last instruction of a section is terminal. -/
def TerminalEnd (code : Buffer) : Prop :=
  ∀ p < code.len, InstructionStart code p → code.len ≤ p + instructionLen code p →
    isTerminalOpcode (code.getOrDefault p) = true

/-- So many positions are reached as the counter of the scan says. -/
def CountsAgree (code : Buffer) (metadata : List FunctionMetadata) (current : FunctionMetadata) :
    Prop :=
  let reached := Set.ncard {p | p < code.len ∧ (flow code metadata current).Reachable p}
  let instructions := Set.ncard {p | p < code.len ∧ InstructionStart code p}
  ((¬∃ r, LastTable code r) → reached = instructions) ∧
    ∀ r, LastTable code r →
      reached + Set.ncard {p | InstructionStart code p ∧ p ≤ r} = tableCount code r + instructions

/-- The checks that a section has to pass. -/
structure Passes (code : Buffer) (sectionIndex : ℕ) (metadata : List FunctionMetadata) : Prop where
  instructions : InstructionsOk code metadata
  terminal : TerminalEnd code
  flow : ∃ current f, metadata[sectionIndex]? = some current ∧
    (flow code metadata current).Typing f ∧
    IsGreatest {k | ∃ p, (Container.flow code metadata current).Reach p k} current.maxStackHeight ∧
    CountsAgree code metadata current

variable {code : Buffer} {metadata : List FunctionMetadata} {current : FunctionMetadata}
  {b : Bitvec} {sectionIndex n : ℕ}

/-! ## The parts of the verdict -/

/-- **The scan's last opcode** is that of the last instruction. -/
theorem terminalEnd_iff (hn : Ends code n) :
    isTerminalOpcode (scanAt code b n).opcode = true ↔ TerminalEnd code := by
  rcases n with _ | k
  · have hempty : code.len = 0 := Nat.le_zero.1 hn.2
    have hstop : isTerminalOpcode 0 = true := by decide +kernel
    exact iff_of_true hstop fun p hp => absurd hp (by omega)
  · rw [scanAt_opcode]
    constructor
    · rintro hterminal _ hp ⟨j, rfl⟩ hend
      have hjk : j ≤ k := by
        by_contra hlt
        exact absurd hp (Nat.not_lt_of_le (hn.2.trans
          ((strictMono_tile instructionLen_pos).monotone (not_le.1 hlt))))
      obtain rfl | hlt := Nat.eq_or_lt_of_le hjk
      · exact hterminal
      · exact absurd (hn.1 (j + 1) (by omega)) (Nat.not_lt_of_le hend)
    · intro hterminal
      exact hterminal _ (hn.1 k k.lt_succ_self) ⟨k, rfl⟩ hn.2

/-- **The counters agree** where the control flow visits as many positions as the scan counts. -/
theorem countsAgree_iff (hn : Ends code n) :
    Set.ncard {p | p < code.len ∧ (flow code metadata current).Reachable p} =
      (scanAt code b n).instructionCount ↔ CountsAgree code metadata current := by
  simp only [CountsAgree, ncard_starts hn]
  by_cases htable : ∃ r, LastTable code r
  · obtain ⟨r, hr⟩ := htable
    have hcount := instructionCount_table (b := b) hn hr
    constructor
    · refine fun h => ⟨fun hnone => absurd ⟨r, hr⟩ hnone, fun r' hr' => ?_⟩
      have hcount' := instructionCount_table (b := b) hn hr'
      omega
    · intro h
      have := h.2 r hr
      omega
  · have hnone : ∀ k < n, code.getOrDefault (tile (instructionLen code) k) ≠ RJUMPV :=
      fun k hk hop => htable (exists_lastTable hn hk hop)
    rw [scanAt_count hnone]
    exact ⟨fun h => ⟨fun _ => h, fun r hr => absurd ⟨r, hr⟩ htable⟩, fun h => h.1 htable⟩

/-- **A section is accepted** exactly if it passes the checks. -/
theorem validateCode_ok_iff :
    validateCode code sectionIndex metadata () = .ok () () ↔ Passes code sectionIndex metadata := by
  obtain ⟨b, hb, -⟩ := Bitvec.eofCodeBitmap_ok code
  obtain ⟨N, hN⟩ : ∃ N, Ends code N := exists_end instructionLen_pos code.len
  have hbitmap : InstructionsOk code metadata ↔
      ∀ p < code.len, InstructionStart code p → InstructionOk code metadata b p := by
    refine ⟨fun h => h b hb, fun h b' hb' => ?_⟩
    obtain rfl := (Outcome.ok.inj (hb.symm.trans hb')).1
    exact h
  constructor
  · intro h
    simp only [validateCode, bind_eq_ok, require_eq_ok, decide_eq_true_iff] at h
    obtain ⟨s, _, hscan, _, _, ⟨hterminal, -⟩, n, _, hflow, rfl, -⟩ := h
    obtain ⟨rfl, hok⟩ := (scan_eq_ok hb hN).1 hscan
    rcases hget : metadata[sectionIndex]? with _ | current
    · rw [validateControlFlow_none hget] at hflow
      cases hflow
    · have hcount := validateControlFlow_count hget hflow
      rcases validateControlFlow_cases code hget with ⟨w, hw, hnil, hrun⟩ | ⟨e, hrun, -⟩
      · obtain ⟨f, hf⟩ := FlowGraph.exists_typing_iff.2 (hw.coherent hnil)
        rw [hrun] at hflow
        split_ifs at hflow with hmax
        exact ⟨hbitmap.2 hok, (terminalEnd_iff hN).1 hterminal, current, f, hget, hf,
          hmax ▸ hw.isGreatest hnil, (countsAgree_iff hN).1 hcount.symm⟩
      · rw [hrun] at hflow
        cases hflow
  · rintro ⟨hok, hterminal, current, f, hget, hf, hmax, hcounts⟩
    have hscan := (scan_eq_ok hb hN).2 ⟨rfl, hbitmap.1 hok⟩
    rcases validateControlFlow_cases code hget with ⟨w, hw, hnil, hrun⟩ | ⟨e, -, hnot⟩
    · rw [if_pos ((hw.isGreatest hnil).unique hmax)] at hrun
      rw [validateCode_eq hscan ((terminalEnd_iff hN).2 hterminal) hrun, if_pos]
      rw [hw.heightUpdate_eq hnil]
      exact (countsAgree_iff hN).2 hcounts
    · exact absurd (FlowGraph.exists_typing_iff.1 ⟨f, hf⟩) hnot

/-! ## The opcodes -/

/-- What an accepted section is not to hold. -/
def Forbidden (op : UInt8) : Prop := isOpcodeValid op = false ∨ op ∈ DEPRECATED_OPCODES

end Container

open Container OpcodeInfo in
/-- **No accepted section holds a forbidden opcode**, exactly if it fails one of the other checks, or
holds no deprecated opcode, and an undefined one only where control comes by. -/
theorem accepted_opcodes (code : Buffer) (sectionIndex : ℕ) (metadata : List FunctionMetadata) :
    (validateCode code sectionIndex metadata () = .ok () () →
        ∀ p < code.len, InstructionStart code p → ¬Forbidden (code.getOrDefault p)) ↔
      (Passes code sectionIndex metadata → ∀ p < code.len, InstructionStart code p →
        code.getOrDefault p ∉ DEPRECATED_OPCODES ∧
          (isOpcodeValid (code.getOrDefault p) = false →
            ∀ current, metadata[sectionIndex]? = some current →
              (flow code metadata current).Reachable p)) := by
  rw [validateCode_ok_iff]
  refine ⟨fun h hpasses p hp hstart => ?_, fun h hpasses p hp hstart => ?_⟩
  · have hnot := not_or.1 (h hpasses p hp hstart)
    exact ⟨hnot.2, fun hundefined => absurd hundefined hnot.1⟩
  · obtain ⟨hdeprecated, hreached⟩ := h hpasses p hp hstart
    refine not_or.2 ⟨fun hundefined => ?_, hdeprecated⟩
    obtain ⟨current, f, hget, hf, -, -⟩ := hpasses.flow
    obtain ⟨⟨info, hfind, -, -⟩, -, -⟩ := hf.fits (hreached hundefined current hget) hp
    rw [isOpcodeValid, hfind] at hundefined
    exact absurd hundefined.symm Bool.false_ne_true

open Container opcode in
/-- The code `PC POP STOP`. -/
theorem deprecated_accepted :
    ¬∀ (code : Buffer) (sectionIndex : ℕ) (metadata : List FunctionMetadata),
      validateCode code sectionIndex metadata () = .ok () () →
        ∀ p < code.len, InstructionStart code p → ¬Forbidden (code.getOrDefault p) := by
  intro h
  exact h (.owned [PC, 0x50, 0]) 0 [⟨0, 0, 1⟩] (by decide +kernel) 0 (by decide) Tiling.start_zero
    (.inr (by decide))

end NeonEvm
