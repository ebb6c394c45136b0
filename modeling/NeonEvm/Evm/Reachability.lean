import NeonEvm.Evm.Scan

/-!
# Evm/Reachability — two counters, and the code that nothing reaches

    accepted  ↔  #positions the control flow visits = the counter of the scan

The scan's counter is the number of instructions as long as there is no jump table; a table sets it
to the number of its entries.
-/

namespace NeonEvm

open Exec

namespace Container

open opcode Tiling OpcodeInfo

/-- The last jump table of the section is at `r`. -/
structure LastTable (code : Buffer) (r : ℕ) : Prop where
  lt : r < code.len
  start : InstructionStart code r
  op : code.getOrDefault r = RJUMPV
  last : ∀ p < code.len, InstructionStart code p → code.getOrDefault p = RJUMPV → p ≤ r

/-- The instructions that control does not reach. -/
def unreached (code : Buffer) (metadata : List FunctionMetadata) (current : FunctionMetadata) :
    Set ℕ :=
  {p | p < code.len ∧ InstructionStart code p ∧ ¬(flow code metadata current).Reachable p}

/-- The positions inside instructions that control reaches. -/
def strayed (code : Buffer) (metadata : List FunctionMetadata) (current : FunctionMetadata) :
    Set ℕ :=
  {p | p < code.len ∧ ¬InstructionStart code p ∧ (flow code metadata current).Reachable p}

variable {code : Buffer} {metadata : List FunctionMetadata} {current : FunctionMetadata}
  {b : Bitvec} {s : Scan} {sectionIndex n r : ℕ}

/-! ## Control stays on instructions -/

/-- **Jumps land on instructions** where the bitmap marks the immediates as they are. -/
theorem start_of_reachable (hb : Bitvec.eofCodeBitmap code () = .ok b ())
    (hshort : ∀ p < code.len, InstructionStart code p → code.getOrDefault p = RJUMPV →
      128 ≤ (code.getOrDefault (p + 1)).toNat →
        code.len + 254 ≤ p + 2 * (code.getOrDefault (p + 1)).toNat)
    (hok : ∀ p < code.len, InstructionStart code p → InstructionOk code metadata b p) {p : ℕ}
    (hp : (flow code metadata current).Reachable p) (hin : p < code.len) :
    InstructionStart code p := by
  have hagree := start_congr (instructionLen code) (Bitvec.bitmapLen code) code.len
    fun p hp hstart => Bitvec.bitmapLen_eq hp (hshort p hp hstart)
  have hland : ∀ q < code.len, b.isCodeSegment q () = .ok true () → InstructionStart code q := by
    intro q hq hseg
    obtain ⟨b', hb', hmarked⟩ := Bitvec.eofCodeBitmap_ok code
    obtain rfl : b = b' := (Outcome.ok.inj (hb.symm.trans hb')).1
    obtain ⟨hisCode, hinside⟩ := hmarked q hq
    rw [InstructionStart, hagree q hq, start_iff_not_inside Bitvec.bitmapLen_pos, ← hinside]
    rw [hisCode] at hseg
    exact fun h => absurd (Outcome.ok.inj hseg).1 (by rw [h]; decide)
  induction hp with
  | entry => exact start_zero
  | @step p q _ hinp hq ih =>
    have hstart := ih hinp
    rcases List.mem_append.1 hq with hnext | hjump
    · split_ifs at hnext with hterminal
      · exact absurd hnext List.not_mem_nil
      · rw [List.mem_singleton.1 hnext]
        exact hstart.next
    · exact hland q hin ((hok p hinp hstart).dest q hjump).2

/-! ## The two counters -/

/-- **Reached and unreached** positions and instructions. -/
theorem ncard_reachable (code : Buffer) (metadata : List FunctionMetadata)
    (current : FunctionMetadata) :
    Set.ncard {p | p < code.len ∧ (flow code metadata current).Reachable p} +
        (unreached code metadata current).ncard =
      Set.ncard {p | p < code.len ∧ InstructionStart code p} +
        (strayed code metadata current).ncard := by
  have hfinite : ∀ P : ℕ → Prop, {p | p < code.len ∧ P p}.Finite := fun P =>
    (Set.finite_lt_nat code.len).subset fun p hp => hp.1
  rw [unreached, strayed, ← Set.ncard_union_eq _ (hfinite _) (hfinite _),
    ← Set.ncard_union_eq _ (hfinite _) (hfinite _)]
  · congr 1
    ext p
    simp only [Set.mem_union, Set.mem_ofPred_eq]
    tauto
  · rw [Set.disjoint_left]
    exact fun p hp hp' => hp'.2.1 hp.2
  · rw [Set.disjoint_left]
    exact fun p hp hp' => hp'.2.2 hp.2

theorem ncard_starts (hn : Ends code n) :
    Set.ncard {p | p < code.len ∧ InstructionStart code p} = n := by
  have hset : {p | p < code.len ∧ InstructionStart code p} =
      {p | Start (instructionLen code) p ∧ tile (instructionLen code) 0 ≤ p ∧
        p < tile (instructionLen code) n} := by
    ext p
    constructor
    · rintro ⟨hlt, hstart⟩
      exact ⟨hstart, Nat.zero_le p, hlt.trans_le hn.2⟩
    · rintro ⟨⟨k, rfl⟩, -, hlt⟩
      exact ⟨hn.1 k ((strictMono_tile instructionLen_pos).lt_iff_lt.1 hlt), k, rfl⟩
  rw [hset, ncard_start instructionLen_pos]
  exact Nat.sub_zero n

theorem ncard_starts_le (k : ℕ) :
    Set.ncard {p | InstructionStart code p ∧ p ≤ tile (instructionLen code) k} = k + 1 := by
  have hset : {p | InstructionStart code p ∧ p ≤ tile (instructionLen code) k} =
      {p | Start (instructionLen code) p ∧ tile (instructionLen code) 0 ≤ p ∧
        p < tile (instructionLen code) (k + 1)} := by
    ext p
    constructor
    · rintro ⟨hstart, hle⟩
      exact ⟨hstart, Nat.zero_le p, hle.trans_lt (strictMono_tile instructionLen_pos k.lt_succ_self)⟩
    · rintro ⟨⟨j, rfl⟩, -, hlt⟩
      refine ⟨⟨j, rfl⟩, (strictMono_tile instructionLen_pos).monotone (Nat.le_of_lt_succ ?_)⟩
      exact (strictMono_tile instructionLen_pos).lt_iff_lt.1 hlt
  rw [hset, ncard_start instructionLen_pos]
  exact Nat.sub_zero _

/-- A section that has a jump table has a last one. -/
theorem exists_lastTable (hn : Ends code n) {k : ℕ} (hk : k < n)
    (hop : code.getOrDefault (tile (instructionLen code) k) = RJUMPV) :
    ∃ r, LastTable code r := by
  set j := Nat.findGreatest
    (fun j => code.getOrDefault (tile (instructionLen code) j) = RJUMPV) (n - 1) with hj
  have hle : j ≤ n - 1 := Nat.findGreatest_le _
  refine ⟨tile (instructionLen code) j, hn.1 j (by omega), ⟨j, rfl⟩, ?_, ?_⟩
  · exact Nat.findGreatest_spec
      (P := fun j => code.getOrDefault (tile (instructionLen code) j) = RJUMPV) (m := k)
      (by omega) hop
  · rintro _ hlt ⟨i, rfl⟩ hopi
    refine (strictMono_tile instructionLen_pos).monotone (Nat.le_findGreatest ?_ hopi)
    by_contra hgt
    have hmono : tile (instructionLen code) n ≤ tile (instructionLen code) i :=
      (strictMono_tile instructionLen_pos).monotone (by omega)
    exact absurd hlt (Nat.not_lt_of_le (hn.2.trans hmono))

/-- **The counter of the scan** in a section with a jump table. -/
theorem instructionCount_table (hn : Ends code n) (hr : LastTable code r) :
    (scanAt code b n).instructionCount +
        Set.ncard {p | InstructionStart code p ∧ p ≤ r} = tableCount code r + n := by
  obtain ⟨k, rfl⟩ := hr.start
  have hk : k < n := by
    by_contra hk
    exact absurd hr.lt (Nat.not_lt_of_le (hn.2.trans
      ((strictMono_tile instructionLen_pos).monotone (not_lt.1 hk))))
  obtain ⟨d, rfl⟩ := Nat.exists_eq_add_of_le (Nat.succ_le_of_lt hk)
  have hcount := scanAt_count_table (b := b) (d := d) hr.op fun j hkj hj hop =>
    absurd (hr.last _ (hn.1 j hj) ⟨j, rfl⟩ hop)
      (Nat.not_le_of_lt (strictMono_tile instructionLen_pos hkj))
  rw [hcount, ncard_starts_le]
  omega

/-! ## The verdict -/

theorem validateControlFlow_count (hget : metadata[sectionIndex]? = some current)
    (h : validateControlFlow code sectionIndex metadata () = .ok n ()) :
    n = Set.ncard {p | p < code.len ∧ (flow code metadata current).Reachable p} := by
  rcases validateControlFlow_cases code hget with ⟨w, hw, hnil, hrun⟩ | ⟨e, hrun, -⟩
  · rw [hrun] at h
    split_ifs at h
    obtain ⟨rfl, -⟩ := Outcome.ok.inj h
    exact hw.heightUpdate_eq hnil
  · rw [hrun] at h
    cases h

/-- Behind all other checks the counters decide. -/
theorem validateCode_eq (hscan : scan code metadata (code.len + 1) ⟨0, 0, none, 0⟩ () = .ok s ())
    (hterminal : isTerminalOpcode s.opcode = true)
    (hflow : validateControlFlow code sectionIndex metadata () = .ok n ()) :
    validateCode code sectionIndex metadata () =
      if n = s.instructionCount then .ok () () else .err .validationUnreachableCode () := by
  simp only [validateCode, bind_run, hscan, Outcome.ok_andThen, require_eq hterminal, pure_run, hflow]
  split_ifs with heq
  · rw [require_eq (decide_eq_true heq)]
    rfl
  · rw [require_eq_fail (decide_eq_false heq)]
    rfl

end Container

open Container OpcodeInfo opcode in
/-- A push, a table with one target right behind it, and the instruction there: all is reached. -/
theorem reached_behind_table {code : Buffer} {metadata : List FunctionMetadata}
    {current : FunctionMetadata} (next : ℕ) (hstart : InstructionStart code 1)
    (hnext : 1 ∈ nextPositions code 0 ∧ next ∈ nextPositions code 1)
    (hlen : 1 + instructionLen code 1 = next) (hend : code.len = next + 1) :
    ∀ p < code.len, InstructionStart code p → (flow code metadata current).Reachable p := by
  have hentry : (flow code metadata current).Reachable 0 := .entry
  have hone : 0 < instructionLen code 1 := instructionLen_pos 1
  have htable : (flow code metadata current).Reachable 1 :=
    hentry.step (show 0 < code.len by omega) hnext.1
  intro p hp hp'
  obtain rfl | rfl | hgt : p = 0 ∨ p = 1 ∨ 1 < p := by omega
  · exact hentry
  · exact htable
  · have hle := hstart.add_le instructionLen_pos hp' hgt
    obtain rfl : p = next := by omega
    exact htable.step (show 1 < code.len by omega) hnext.2

open Container OpcodeInfo in
/-- **Unreachable code is refused, and nothing else**, exactly if the last jump table of the section,
where there is one, does not disturb the counter: its entries and the unreached instructions together
are as many as the instructions up to it and the positions that control strays to just when every
instruction is reached. -/
theorem unreachable_code_exact (code : Buffer) (sectionIndex : ℕ) (metadata : List FunctionMetadata)
    (current : FunctionMetadata) (s : Scan) (n : ℕ)
    (hcurrent : metadata[sectionIndex]? = some current)
    (hscan : scan code metadata (code.len + 1) ⟨0, 0, none, 0⟩ () = .ok s ())
    (hterminal : isTerminalOpcode s.opcode = true)
    (hflow : validateControlFlow code sectionIndex metadata () = .ok n ()) :
    (((∀ p < code.len, InstructionStart code p → (flow code metadata current).Reachable p) →
        validateCode code sectionIndex metadata () = .ok () ()) ∧
      ((¬∀ p < code.len, InstructionStart code p → (flow code metadata current).Reachable p) →
        validateCode code sectionIndex metadata () = .err .validationUnreachableCode ())) ↔
      ∀ r, LastTable code r →
        (tableCount code r + (unreached code metadata current).ncard =
            Set.ncard {p | InstructionStart code p ∧ p ≤ r} + (strayed code metadata current).ncard ↔
          (unreached code metadata current).ncard = 0) := by
  obtain ⟨b, hb, -⟩ := Bitvec.eofCodeBitmap_ok code
  obtain ⟨N, hN⟩ : ∃ N, Ends code N := Tiling.exists_end instructionLen_pos code.len
  obtain ⟨rfl, hok⟩ := (scan_eq_ok hb hN).1 hscan
  have hcount := ncard_reachable code metadata current
  rw [ncard_starts hN, ← validateControlFlow_count hcurrent hflow] at hcount
  have hall : (∀ p < code.len, InstructionStart code p → (flow code metadata current).Reachable p) ↔
      (unreached code metadata current).ncard = 0 := by
    rw [Set.ncard_eq_zero ((Set.finite_lt_nat code.len).subset fun p hp => hp.1),
      Set.eq_empty_iff_forall_notMem]
    simp only [unreached, Set.mem_ofPred_eq, not_and, not_not]
  have hverdict : ((((unreached code metadata current).ncard = 0 →
        validateCode code sectionIndex metadata () = .ok () ()) ∧
      (¬(unreached code metadata current).ncard = 0 →
        validateCode code sectionIndex metadata () = .err .validationUnreachableCode ())) ↔
      (n = (scanAt code b N).instructionCount ↔ (unreached code metadata current).ncard = 0)) := by
    rw [validateCode_eq hscan hterminal hflow]
    by_cases h : n = (scanAt code b N).instructionCount
    · simp only [if_pos h, iff_true_left h, reduceCtorEq, imp_false, not_not, implies_true, true_and]
    · simp only [if_neg h, iff_false_left h, reduceCtorEq, imp_false, implies_true, and_true]
  rw [hall, hverdict]
  by_cases htable : ∃ r, LastTable code r
  · obtain ⟨r, hr⟩ := htable
    have hK := instructionCount_table (b := b) hN hr
    have hsame : n = (scanAt code b N).instructionCount ↔
        tableCount code r + (unreached code metadata current).ncard =
          Set.ncard {p | InstructionStart code p ∧ p ≤ r} +
            (strayed code metadata current).ncard := by
      omega
    rw [hsame]
    refine ⟨fun h r' hr' => ?_, fun h => h r hr⟩
    obtain rfl : r' = r := le_antisymm (hr.last _ hr'.lt hr'.start hr'.op)
      (hr'.last _ hr.lt hr.start hr.op)
    exact h
  · have hnone : ∀ k < N, code.getOrDefault (Tiling.tile (instructionLen code) k) ≠ opcode.RJUMPV :=
      fun k hk hop => htable (exists_lastTable hN hk hop)
    have hstrayed : (strayed code metadata current).ncard = 0 := by
      rw [Set.ncard_eq_zero ((Set.finite_lt_nat code.len).subset fun p hp => hp.1),
        Set.eq_empty_iff_forall_notMem]
      rintro p ⟨hin, hstart, hp⟩
      refine hstart (start_of_reachable hb ?_ hok hp hin)
      rintro _ hlt ⟨k, rfl⟩ hop
      refine absurd hop (hnone k ?_)
      by_contra hk
      exact absurd hlt (Nat.not_lt_of_le (hN.2.trans
        ((Tiling.strictMono_tile instructionLen_pos).monotone (not_lt.1 hk))))
    rw [scanAt_count hnone]
    exact ⟨fun _ r hr => absurd ⟨r, hr⟩ htable, fun _ => by omega⟩

open Container OpcodeInfo opcode in
/-- A table with two entries, which meets the condition: all is reached, and accepted. -/
theorem unreachable_code_exact_table :
    let code : Buffer := .owned [PUSH0, RJUMPV, 2, 0, 0, 0, 0, 0]
    let metadata : List FunctionMetadata := [⟨0, 0, 1⟩]
    LastTable code 1 ∧ (unreached code metadata ⟨0, 0, 1⟩).ncard = 0 ∧
      validateCode code 0 metadata () = .ok () () ∧
      tableCount code 1 + (unreached code metadata ⟨0, 0, 1⟩).ncard =
        Set.ncard {p | InstructionStart code p ∧ p ≤ 1} +
          (strayed code metadata ⟨0, 0, 1⟩).ncard := by
  intro _ metadata
  set code : Buffer := .owned [PUSH0, RJUMPV, 2, 0, 0, 0, 0, 0] with hcode
  have hok : (scan code [⟨0, 0, 1⟩] (code.len + 1) ⟨0, 0, none, 0⟩ ()).okAnd
      (fun s _ => isTerminalOpcode s.opcode) = true := by
    decide +kernel
  obtain ⟨s, _, hscan, hterminal⟩ := Outcome.exists_of_okAnd hok
  have hone : InstructionStart code 1 := ⟨1, by decide +kernel⟩
  have hreached : ∀ p < code.len, InstructionStart code p →
      (flow code [⟨0, 0, 1⟩] ⟨0, 0, 1⟩).Reachable p :=
    reached_behind_table 7 hone (by decide +kernel) (by decide +kernel) (by decide)
  have hlast : LastTable code 1 := by
    refine ⟨by decide, hone, by decide, fun p hp hstart hop => ?_⟩
    by_contra hgt
    have hle := hone.add_le instructionLen_pos hstart (not_le.1 hgt)
    have hlen : 1 + instructionLen code 1 = 7 := by decide +kernel
    obtain rfl : p = 7 := le_antisymm (Nat.le_of_lt_succ hp) (hlen ▸ hle)
    exact absurd hop (by decide)
  have hrun : validateCode code 0 [⟨0, 0, 1⟩] () = .ok () () := by decide +kernel
  have hexact := unreachable_code_exact code 0 [⟨0, 0, 1⟩] ⟨0, 0, 1⟩ s 3 rfl hscan hterminal
    (by decide +kernel)
  have hnone : (unreached code [⟨0, 0, 1⟩] ⟨0, 0, 1⟩).ncard = 0 := by
    have hempty : unreached code [⟨0, 0, 1⟩] ⟨0, 0, 1⟩ = ∅ :=
      Set.eq_empty_iff_forall_notMem.2 fun p hp => hp.2.2 (hreached p hp.1 hp.2.1)
    rw [hempty, Set.ncard_empty]
  exact ⟨hlast, hnone, hrun, (hexact.1 ⟨fun _ => hrun, fun hnot => absurd hreached hnot⟩ 1
    hlast).2 hnone⟩

open Container OpcodeInfo opcode in
/-- A push, a table with one entry, and the instruction behind it: all is reached, and refused. -/
theorem reached_code_refused :
    ¬∀ (code : Buffer) (sectionIndex : ℕ) (metadata : List FunctionMetadata)
      (current : FunctionMetadata) (s : Scan) (n : ℕ), metadata[sectionIndex]? = some current →
      scan code metadata (code.len + 1) ⟨0, 0, none, 0⟩ () = .ok s () →
      isTerminalOpcode s.opcode = true →
      validateControlFlow code sectionIndex metadata () = .ok n () →
      (∀ p < code.len, InstructionStart code p → (flow code metadata current).Reachable p) →
        validateCode code sectionIndex metadata () = .ok () () := by
  intro h
  set code : Buffer := .owned [PUSH0, RJUMPV, 1, 0, 0, 0] with hcode
  have hok : (scan code [⟨0, 0, 1⟩] (code.len + 1) ⟨0, 0, none, 0⟩ ()).okAnd
      (fun s _ => isTerminalOpcode s.opcode) = true := by
    decide +kernel
  obtain ⟨s, _, hscan, hterminal⟩ := Outcome.exists_of_okAnd hok
  have hreached : ∀ p < code.len, InstructionStart code p →
      (flow code [⟨0, 0, 1⟩] ⟨0, 0, 1⟩).Reachable p :=
    reached_behind_table 5 ⟨1, by decide +kernel⟩ (by decide +kernel)
      (by decide +kernel) (by decide)
  have hrun := h code 0 [⟨0, 0, 1⟩] ⟨0, 0, 1⟩ s 3 rfl hscan hterminal
    (by decide +kernel) hreached
  exact absurd hrun (by decide +kernel)

end NeonEvm
