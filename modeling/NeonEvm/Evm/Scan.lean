import NeonEvm.Evm.FlowTyping

/-!
# Evm/Scan — what the linear scan checks

    scan = ok s  ↔  every instruction of the section is complete, and its jumps land on code

The scan runs over the instructions of a section one after the other, so that it is known from the
instructions alone whether it ends, and with which counter: the number of instructions, or, from the
last jump table on, the number of its entries and of the instructions behind it.
-/

namespace NeonEvm

open Exec

namespace Container

open opcode Tiling

/-- The scan passes the instruction at `p`; `b` is the bitmap of the section. -/
structure InstructionOk (code : Buffer) (metadata : List FunctionMetadata) (b : Bitvec) (p : ℕ) :
    Prop where
  complete : p + instructionLen code p ≤ code.len
  table : code.getOrDefault p = RJUMPV → tableCount code p ≠ 0
  dest : ∀ q ∈ jumpDests code p, q < code.len ∧ b.isCodeSegment q () = .ok true ()
  callee : code.getOrDefault p = CALLF → code.getU16OrDefault (p + 1) < metadata.length

/-- The scan behind the instruction at which it stands. -/
def Scan.next (code : Buffer) (b : Bitvec) (s : Scan) : Scan where
  i := s.i + instructionLen code s.i
  instructionCount :=
    if code.getOrDefault s.i = RJUMPV then tableCount code s.i else s.instructionCount + 1
  analysis := if jumpDests code s.i = [] then s.analysis else some b
  opcode := code.getOrDefault s.i

/-- The scan behind the first `k` instructions. -/
def scanAt (code : Buffer) (b : Bitvec) : ℕ → Scan
  | 0 => ⟨0, 0, none, 0⟩
  | k + 1 => (scanAt code b k).next code b

variable {code : Buffer} {metadata : List FunctionMetadata} {b : Bitvec} {s s' : Scan} {p : ℕ}
  {a a' : Option Bitvec}

theorem scanAt_i (k : ℕ) : (scanAt code b k).i = tile (instructionLen code) k := by
  induction k with
  | zero => rfl
  | succ k ih => rw [scanAt, Scan.next, ih, tile]

/-! ## The jumps of an instruction -/

theorem jumpDests_none (hjump : ¬(code.getOrDefault p = RJUMP ∨ code.getOrDefault p = RJUMPI))
    (htable : code.getOrDefault p ≠ RJUMPV) : jumpDests code p = [] := by
  simp only [jumpDests, if_neg hjump, if_neg htable]

theorem jumpDests_jump (h : code.getOrDefault p = RJUMP ∨ code.getOrDefault p = RJUMPI) :
    jumpDests code p = [relativeTarget code p] := by
  simp only [jumpDests, if_pos h]

theorem jumpDests_table (h : code.getOrDefault p = RJUMPV) :
    jumpDests code p = (List.range (tableCount code p)).map (tableTarget code p) := by
  simp only [jumpDests, h]
  rfl

/-- An instruction that does not jump is in order if it is complete. -/
theorem instructionOk_of_none (hjump : ¬(code.getOrDefault p = RJUMP ∨ code.getOrDefault p = RJUMPI))
    (htable : code.getOrDefault p ≠ RJUMPV) :
    InstructionOk code metadata b p ↔ p + instructionLen code p ≤ code.len ∧
      (code.getOrDefault p = CALLF → code.getU16OrDefault (p + 1) < metadata.length) := by
  refine ⟨fun h => ⟨h.complete, h.callee⟩, fun h => ⟨h.1, fun hop => absurd hop htable, ?_, h.2⟩⟩
  rw [jumpDests_none hjump htable]
  exact fun q hq => absurd hq List.not_mem_nil

/-! ## One instruction -/

/-- No opcode is deprecated and unknown to the validator at once: the check of the scan never
fails. -/
theorem deprecated_check : ∀ op : UInt8,
    (!(!OpcodeInfo.isOpcodeValid op && DEPRECATED_OPCODES.contains op)) = true :=
  forall_byte (by decide +kernel)

section

variable (hb : Bitvec.eofCodeBitmap code () = .ok b ()) (ha : a = none ∨ a = some b)

include hb ha

theorem checkDest_eq_ok {b' : Bitvec} {imm start length : ℕ} :
    checkDest code a imm start length () = .ok b' () ↔ b' = b ∧
      imm + 2 ≤ code.len ∧ usizeOfInt (start + code.getI16OrDefault imm) < length ∧
        b.isCodeSegment (usizeOfInt (start + code.getI16OrDefault imm)) () = .ok true () := by
  have hsame : checkDest code a imm start length () = checkDest code (some b) imm start length () := by
    have hpure : Bitvec.eofCodeBitmap code = pure b := funext fun _ => hb
    rcases ha with rfl | rfl
    · simp only [checkDest, hpure]
    · rfl
  rw [hsame]
  constructor
  · intro h
    have heq : b' = b := by
      simp only [checkDest, bind_eq_ok, pure_eq_ok] at h
      obtain ⟨_, _, -, _, _, ⟨rfl, -⟩, _, _, -, _, _, -, _, _, -, rfl, -⟩ := h
      rfl
    exact ⟨heq, checkDest_ok.1 (heq ▸ h)⟩
  · rintro ⟨rfl, h⟩
    exact checkDest_ok.2 h

/-- The destinations of a table, one after the other. -/
theorem checkTable_eq_ok {n : ℕ} :
    foldl (fun a j => do
        pure (some (← checkDest code a (p + 2 + j * 2) (p + 2 * tableCount code p + 2) code.len)))
      a (List.range n) () = .ok a' () ↔
      a' = (if n = 0 then a else some b) ∧ ∀ j < n, p + 2 + j * 2 + 2 ≤ code.len ∧
        tableTarget code p j < code.len ∧
          b.isCodeSegment (tableTarget code p j) () = .ok true () := by
  induction n generalizing a' with
  | zero => exact ⟨fun h => ⟨(pure_eq_ok.1 h).1.symm, fun _ h => absurd h (Nat.not_lt_zero _)⟩,
      fun ⟨h, _⟩ => pure_eq_ok.2 ⟨h.symm, rfl⟩⟩
  | succ n ih =>
    rw [List.range_succ, foldl_concat, ← bind_run, bind_eq_ok, if_neg (Nat.succ_ne_zero n),
      Nat.forall_lt_succ_right]
    constructor
    · rintro ⟨a₁, _, hfold, h⟩
      obtain ⟨rfl, hdests⟩ := ih.1 hfold
      obtain ⟨b', _, hcheck, hpure⟩ := bind_eq_ok.1 h
      obtain ⟨rfl, -⟩ := pure_eq_ok.1 hpure
      obtain ⟨rfl, hdest⟩ := (checkDest_eq_ok hb (by split_ifs <;> tauto)).1 hcheck
      exact ⟨rfl, hdests, checkDest_tableTarget ▸ hdest⟩
    · rintro ⟨rfl, hdests, hdest⟩
      refine ⟨_, (), ih.2 ⟨rfl, hdests⟩, bind_eq_ok.2 ⟨b, (), ?_, rfl⟩⟩
      refine (checkDest_eq_ok hb (by split_ifs <;> tauto)).2 ⟨rfl, ?_⟩
      exact checkDest_tableTarget ▸ hdest

end

/-- The scan behind an instruction that does not jump. -/
theorem Scan.next_of_none
    (hjump : ¬(code.getOrDefault s.i = RJUMP ∨ code.getOrDefault s.i = RJUMPI))
    (htable : code.getOrDefault s.i ≠ RJUMPV) :
    s.next code b = ⟨s.i + instructionLen code s.i, s.instructionCount + 1, s.analysis,
      code.getOrDefault s.i⟩ := by
  rw [Scan.next, if_neg htable, jumpDests_none hjump htable, if_pos rfl]

theorem push_ne : ∀ op : UInt8, PUSH0 < op ∧ op ≤ PUSH32 →
    ¬(op = RJUMP ∨ op = RJUMPI) ∧ op ≠ RJUMPV ∧ op ≠ CALLF :=
  forall_byte (by decide +kernel)

/-- **The scan passes an instruction** that is in order, and goes on behind it. -/
theorem scanInstruction_eq_ok (hb : Bitvec.eofCodeBitmap code () = .ok b ())
    (ha : s.analysis = none ∨ s.analysis = some b) (hi : s.i < code.len) :
    scanInstruction code metadata s () = .ok s' () ↔
      s' = s.next code b ∧ InstructionOk code metadata b s.i := by
  simp only [scanInstruction]
  rw [bind_run, require_eq (deprecated_check _), pure_run, Outcome.ok_andThen]
  split_ifs with hpush hjump htable hcall
  · obtain ⟨hjump, htable, hcall⟩ := push_ne _ hpush
    rw [instructionOk_of_none hjump htable, Scan.next_of_none hjump htable,
      instructionLen_of_ne (immediateSize_push _ hpush), bind_eq_ok]
    simp only [require_eq_ok, pure_eq_ok, decide_eq_true_iff]
    constructor
    · rintro ⟨_, _, ⟨hlt, -⟩, rfl, -⟩
      refine ⟨?_, by omega, fun h => absurd h hcall⟩
      rw [Scan.mk.injEq]
      exact ⟨by omega, rfl, rfl, rfl⟩
    · rintro ⟨rfl, hle, -⟩
      refine ⟨(), (), ⟨by omega, trivial⟩, ?_, trivial⟩
      rw [Scan.mk.injEq]
      exact ⟨by omega, rfl, rfl, rfl⟩
  · have htable : code.getOrDefault s.i ≠ RJUMPV := (immediateSize_two _ (hjump.imp id .inl)).1
    have hcall : code.getOrDefault s.i ≠ CALLF := by
      rcases hjump with h | h <;> rw [h] <;> decide
    have hlen : instructionLen code s.i = 1 + 2 :=
      instructionLen_of_ne (immediateSize_two _ (hjump.imp id .inl))
    have hnext : s.next code b = ⟨s.i + 2 + 1, s.instructionCount + 1, some b,
        code.getOrDefault s.i⟩ := by
      rw [Scan.next, if_neg htable, jumpDests_jump hjump, if_neg (List.cons_ne_nil _ _), hlen]
    have hok : InstructionOk code metadata b s.i ↔ s.i + 3 ≤ code.len ∧
        relativeTarget code s.i < code.len ∧
          b.isCodeSegment (relativeTarget code s.i) () = .ok true () := by
      refine ⟨fun h => ⟨?_, ?_⟩, fun h => ⟨by omega, fun h => absurd h htable, fun q hq => ?_,
        fun h => absurd h hcall⟩⟩
      · have := h.complete
        omega
      · exact h.dest _ (jumpDests_jump hjump ▸ List.mem_singleton_self _)
      · rw [jumpDests_jump hjump, List.mem_singleton] at hq
        exact hq ▸ h.2
    rw [hnext, hok, bind_eq_ok]
    simp only [bind_eq_ok, require_eq_ok, pure_eq_ok, decide_eq_true_iff]
    constructor
    · rintro ⟨_, _, ⟨hlt, -⟩, b', _, hcheck, rfl, -⟩
      obtain ⟨rfl, -, hdest⟩ := (checkDest_eq_ok hb ha).1 hcheck
      exact ⟨rfl, by omega, hdest⟩
    · rintro ⟨rfl, hle, hdest⟩
      exact ⟨(), (), ⟨by omega, trivial⟩, b, (),
        (checkDest_eq_ok hb ha).2 ⟨rfl, by omega, hdest⟩, rfl, trivial⟩
  · have hcall : code.getOrDefault s.i ≠ CALLF := by
      rw [htable]
      decide
    have hok : InstructionOk code metadata b s.i ↔
        s.i + (2 + 2 * tableCount code s.i) ≤ code.len ∧ tableCount code s.i ≠ 0 ∧
          ∀ j < tableCount code s.i, tableTarget code s.i j < code.len ∧
            b.isCodeSegment (tableTarget code s.i j) () = .ok true () := by
      refine ⟨fun h => ⟨instructionLen_rjumpv htable ▸ h.complete, h.table htable, fun j hj => ?_⟩,
        fun h => ⟨(instructionLen_rjumpv htable).symm ▸ h.1, fun _ => h.2.1, fun q hq => ?_,
          fun h => absurd h hcall⟩⟩
      · exact h.dest _ (jumpDests_table htable ▸ List.mem_map_of_mem (List.mem_range.2 hj))
      · rw [jumpDests_table htable] at hq
        obtain ⟨j, hj, rfl⟩ := List.mem_map.1 hq
        exact h.2.2 j (List.mem_range.1 hj)
    have hnext : tableCount code s.i ≠ 0 → s.next code b =
        ⟨s.i + 1 + 2 * tableCount code s.i + 1, tableCount code s.i, some b,
          code.getOrDefault s.i⟩ := by
      intro hne
      have hnil : jumpDests code s.i ≠ [] := by
        rw [jumpDests_table htable, ne_eq, List.map_eq_nil_iff, List.range_eq_nil]
        exact hne
      rw [Scan.next, if_pos htable, if_neg hnil, instructionLen_rjumpv htable, Scan.mk.injEq]
      exact ⟨by rw [tableCount]; omega, rfl, rfl, rfl⟩
    rw [hok]
    simp only [bind_eq_ok, require_eq_ok, pure_eq_ok, decide_eq_true_iff]
    constructor
    · rintro ⟨_, _, ⟨hlt, -⟩, _, _, ⟨hne, -⟩, _, _, ⟨-, -⟩, a', _, hfold, rfl, -⟩
      obtain ⟨rfl, hdests⟩ := (checkTable_eq_ok hb ha).1 hfold
      have hcount : tableCount code s.i = (code.getOrDefault (s.i + 1)).toNat := rfl
      have hlast := (hdests (tableCount code s.i - 1) (by omega)).1
      rw [hnext hne, if_neg (by exact hne)]
      exact ⟨rfl, by omega, hne, fun j hj => (hdests j hj).2⟩
    · rintro ⟨rfl, hle, hne, hdests⟩
      rw [hnext hne]
      refine ⟨(), (), ⟨by omega, trivial⟩, (), (), ⟨hne, trivial⟩, (), (), ⟨?_, trivial⟩, some b, (),
        (checkTable_eq_ok hb ha).2 ⟨by rw [if_neg (by exact hne)], fun j hj => ⟨?_, hdests j hj⟩⟩, rfl,
        trivial⟩
      · show s.i + tableCount code s.i < _
        omega
      · change j < tableCount code s.i at hj
        omega
  · have hlen : instructionLen code s.i = 1 + 2 :=
      instructionLen_of_ne (immediateSize_two _ (.inr (.inr hcall)))
    rw [instructionOk_of_none hjump htable, Scan.next_of_none hjump htable, hlen]
    simp only [bind_eq_ok, require_eq_ok, pure_eq_ok, decide_eq_true_iff]
    constructor
    · rintro ⟨_, _, ⟨hlt, -⟩, _, _, ⟨harg, -⟩, rfl, -⟩
      exact ⟨rfl, by omega, fun _ => harg⟩
    · rintro ⟨rfl, hle, harg⟩
      exact ⟨(), (), ⟨by omega, trivial⟩, (), (), ⟨harg hcall, trivial⟩, rfl, trivial⟩
  · rw [instructionOk_of_none hjump htable, Scan.next_of_none hjump htable, instructionLen,
      immediateLen, if_neg htable, immediateSize_zero _ hpush hjump hcall, pure_eq_ok]
    exact ⟨fun h => ⟨h.1.symm, hi, fun h => absurd h hcall⟩, fun h => ⟨h.1.symm, rfl⟩⟩

/-! ## The whole section -/

/-- The section has `n` instructions. -/
def Ends (code : Buffer) (n : ℕ) : Prop :=
  (∀ k < n, tile (instructionLen code) k < code.len) ∧ code.len ≤ tile (instructionLen code) n

theorem scanAt_analysis (k : ℕ) :
    (scanAt code b k).analysis = none ∨ (scanAt code b k).analysis = some b := by
  induction k with
  | zero => exact .inl rfl
  | succ k ih =>
    show (if jumpDests code (scanAt code b k).i = [] then (scanAt code b k).analysis else some b) =
      none ∨ (if jumpDests code (scanAt code b k).i = [] then (scanAt code b k).analysis else some b) =
      some b
    by_cases hnil : jumpDests code (scanAt code b k).i = []
    · rw [if_pos hnil]
      exact ih
    · rw [if_neg hnil]
      exact .inr rfl

/-- **The scan** from an instruction on: it passes all that follow. -/
theorem scan_from_eq_ok (hb : Bitvec.eofCodeBitmap code () = .ok b ()) (fuel k : ℕ)
    (hpos : 0 < fuel) (hfuel : code.len < tile (instructionLen code) k + fuel) :
    scan code metadata fuel (scanAt code b k) () = .ok s () ↔
      ∃ n, k ≤ n ∧ (∀ j, k ≤ j → j < n → tile (instructionLen code) j < code.len ∧
        InstructionOk code metadata b (tile (instructionLen code) j)) ∧
        code.len ≤ tile (instructionLen code) n ∧ s = scanAt code b n := by
  induction fuel generalizing k with
  | zero => exact absurd hpos (Nat.not_lt_zero 0)
  | succ fuel ih =>
    have hlen : 0 < instructionLen code (tile (instructionLen code) k) := instructionLen_pos _
    rw [scan, scanAt_i]
    split_ifs with hin
    · have hi : (scanAt code b k).i < code.len := by rwa [scanAt_i]
      have hstep := ih (k + 1) (by omega) (by rw [tile]; omega)
      rw [bind_eq_ok]
      constructor
      · rintro ⟨s₁, _, hrun, hscan⟩
        obtain ⟨rfl, hok⟩ := (scanInstruction_eq_ok hb (scanAt_analysis k) hi).1 hrun
        obtain ⟨n, hkn, hall, hend, rfl⟩ := hstep.1 hscan
        refine ⟨n, by omega, fun j hkj hjn => ?_, hend, rfl⟩
        obtain rfl | hlt := Nat.eq_or_lt_of_le hkj
        · exact ⟨hin, scanAt_i (b := b) k ▸ hok⟩
        · exact hall j hlt hjn
      · rintro ⟨n, hkn, hall, hend, rfl⟩
        have hlt : k < n := by
          refine Nat.lt_of_le_of_ne hkn ?_
          rintro rfl
          omega
        refine ⟨scanAt code b (k + 1), (), ?_, hstep.2 ⟨n, hlt, fun j hkj => hall j (by omega), hend,
          rfl⟩⟩
        refine (scanInstruction_eq_ok hb (scanAt_analysis k) hi).2 ⟨rfl, ?_⟩
        rw [scanAt_i]
        exact (hall k le_rfl hlt).2
    · rw [pure_eq_ok]
      constructor
      · rintro ⟨rfl, -⟩
        exact ⟨k, le_rfl, fun j hkj hjk => by omega, by omega, rfl⟩
      · rintro ⟨n, hkn, hall, -, rfl⟩
        obtain rfl | hlt := Nat.eq_or_lt_of_le hkn
        · exact ⟨rfl, rfl⟩
        · exact absurd (hall k le_rfl hlt).1 hin

theorem Ends.unique {n m : ℕ} (hn : Ends code n) (hm : Ends code m) : n = m := by
  obtain hlt | heq | hgt := Nat.lt_trichotomy n m
  · exact absurd (hm.1 n hlt) (Nat.not_lt_of_le hn.2)
  · exact heq
  · exact absurd (hn.1 m hgt) (Nat.not_lt_of_le hm.2)

/-- **The scan of a section** ends behind its last instruction, if all its instructions are in
order. -/
theorem scan_eq_ok (hb : Bitvec.eofCodeBitmap code () = .ok b ()) {n : ℕ} (hn : Ends code n) :
    scan code metadata (code.len + 1) ⟨0, 0, none, 0⟩ () = .ok s () ↔
      s = scanAt code b n ∧
        ∀ p < code.len, InstructionStart code p → InstructionOk code metadata b p := by
  rw [show (⟨0, 0, none, 0⟩ : Scan) = scanAt code b 0 from rfl, scan_from_eq_ok hb (code.len + 1) 0
    (Nat.succ_pos _) (Nat.lt_add_left _ (Nat.lt_succ_self _))]
  constructor
  · rintro ⟨m, -, hall, hend, rfl⟩
    obtain rfl := hn.unique ⟨fun k hk => (hall k (Nat.zero_le k) hk).1, hend⟩
    refine ⟨rfl, ?_⟩
    rintro _ hp ⟨k, rfl⟩
    refine (hall k (Nat.zero_le k) ?_).2
    by_contra hk
    exact absurd hp (Nat.not_lt_of_le (hn.2.trans
      ((strictMono_tile instructionLen_pos).monotone (not_lt.1 hk))))
  · rintro ⟨rfl, hall⟩
    exact ⟨n, Nat.zero_le n, fun j _ hj => ⟨hn.1 j hj, hall _ (hn.1 j hj) ⟨j, rfl⟩⟩, hn.2, rfl⟩

/-! ## The counter -/

/-- Without a jump table the scan counts the instructions. -/
theorem scanAt_count {k : ℕ}
    (h : ∀ j < k, code.getOrDefault (tile (instructionLen code) j) ≠ RJUMPV) :
    (scanAt code b k).instructionCount = k := by
  induction k with
  | zero => rfl
  | succ k ih =>
    rw [scanAt, Scan.next, scanAt_i, if_neg (h k (Nat.lt_succ_self k)),
      ih fun j hj => h j (Nat.lt_succ_of_lt hj)]

/-- **A jump table** sets the counter to the number of its entries. -/
theorem scanAt_count_table {r d : ℕ}
    (hr : code.getOrDefault (tile (instructionLen code) r) = RJUMPV)
    (h : ∀ j, r < j → j < r + 1 + d → code.getOrDefault (tile (instructionLen code) j) ≠ RJUMPV) :
    (scanAt code b (r + 1 + d)).instructionCount =
      tableCount code (tile (instructionLen code) r) + d := by
  induction d with
  | zero => rw [Nat.add_zero, scanAt, Scan.next, scanAt_i, if_pos hr, Nat.add_zero]
  | succ d ih =>
    have hk := ih fun j hrj hj => h j hrj (by omega)
    have hne := h (r + 1 + d) (by omega) (by omega)
    rw [← Nat.add_assoc, scanAt, Scan.next, scanAt_i, if_neg hne, hk]
    exact Nat.add_assoc ..

/-- The opcode that the scan ends with is that of the last instruction. -/
theorem scanAt_opcode (k : ℕ) : (scanAt code b (k + 1)).opcode =
    code.getOrDefault (tile (instructionLen code) k) := by
  rw [scanAt, Scan.next, scanAt_i]

end Container

end NeonEvm
