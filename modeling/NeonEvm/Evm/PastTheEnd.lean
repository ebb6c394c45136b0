import NeonEvm.Evm.CallResult
import NeonEvm.Evm.Jumpdest
import NeonEvm.Evm.Modular

/-!
# Evm/PastTheEnd — what an opcode reads behind the end of its source

    CALLDATALOAD · CALLDATACOPY · CODECOPY · EXTCODECOPY     zeros
    PUSHn                                                    nothing: it is refused

The source is a window of the call data, or of a code, that goes on with zeros.  Its offset is a
word, of which only the machine words are taken.
-/

namespace NeonEvm

open Exec ExecutorState Locals Cells

/-! ## The stack -/

/-- The stack without its top words. -/
def Stack.drop (s : Stack) (n : ℕ) : Stack :=
  ⟨s.words.drop n, (List.length_drop ▸ Nat.sub_le ..).trans s.bound⟩

/-- The locals without the top words of their stack. -/
def Locals.drop (l : Locals) (n : ℕ) : Locals := { l with stack := l.stack.drop n }

section

variable {l : Locals} {w : U256} {ws : List U256} {n : ℕ}

theorem Locals.words_drop : (l.drop n).stack.words = l.stack.words.drop n := rfl

theorem Locals.drop_drop {m : ℕ} : (l.drop n).drop m = l.drop (n + m) := by
  simp only [Locals.drop, Stack.drop, List.drop_drop]

theorem Locals.popWord_drop (h : l.stack.words.drop n = w :: ws) :
    popWord (l.drop n) = .ok w (l.drop (n + 1)) := by
  have hpop : (l.drop n).stack.pop = .ok (w, (l.drop (n + 1)).stack) := by
    have hstack : (l.drop n).stack = ⟨w :: ws, h ▸ (l.drop n).stack.bound⟩ := by
      rw [Stack.mk.injEq]
      exact h
    have hrest : (l.drop (n + 1)).stack.words = ws := by
      rw [Locals.words_drop, ← List.drop_drop, h]
      rfl
    rw [hstack, Stack.pop, Except.ok.injEq, Prod.mk.injEq, Stack.mk.injEq]
    exact ⟨rfl, hrest.symm⟩
  rw [popWord, onStack, hpop]
  rfl

/-- **A position is popped** from a machine word; any other word is gone. -/
theorem Locals.popUsize_drop (h : l.stack.words.drop n = w :: ws) :
    popUsize (l.drop n) = if w.toNat < USIZE then .ok w.toNat (l.drop (n + 1))
      else .err .tryFromIntError (l.drop (n + 1)) := by
  rw [popUsize, bind_run, popWord_drop h, Outcome.ok_andThen, tryUsize, U256.toUsize?]
  split_ifs <;> rfl

/-! ## Sources that go on with zeros -/

theorem padRight_eq_window {data : Bytes} {offset : ℕ} :
    padRight (data.drop offset) n = window (cells 0 data) offset n := by
  set padded := data.drop offset ++ List.replicate (n - (data.drop offset).length) 0 with hpadded
  have hcells : cells 0 padded = cells 0 (data.drop offset) := cells_append_replicate
  have hlen : 0 + n ≤ padded.length := by
    rw [hpadded, List.length_append, List.length_replicate]
    omega
  rw [padRight, ← hpadded, ← List.drop_zero (l := padded), take_drop_eq_window hlen, hcells]
  refine List.map_congr_left fun k _ => ?_
  rw [cells, cells, List.getD_eq_getElem?_getD, List.getD_eq_getElem?_getD, List.getElem?_drop,
    Nat.zero_add]

/-- **The word of call data** at any position goes on with zeros; the end of its range may wrap
around. -/
theorem calldataWord_eq_window {data : Bytes} {index : ℕ} (hindex : index < USIZE) :
    calldataWord data index = window (cells 0 data) index 32 := by
  rw [calldataWord, wrappingAdd]
  split_ifs with hinside
  · refine take_drop_eq_window (le_of_eq_of_le ?_ hinside.2)
    refine (Nat.mod_eq_of_lt (not_le.1 fun hwraps => ?_)).symm
    have husize : USIZE = 2 ^ 64 := rfl
    have := Nat.mod_eq_sub_mod hwraps
    have := Nat.mod_le (index + 32 - USIZE) USIZE
    omega
  · exact padRight_eq_window

/-! ## Four opcodes -/

/-- `CALLDATALOAD` puts the 32 bytes of call data from its offset in the place of the offset. -/
def Loads (c : Scope) (l : Locals) (index : U256) : Prop :=
  ∃ l', opcodeCalldataload c l = .ok .continue l' ∧
    l'.stack.words =
      U256.ofBytes (window (cells 0 c.env.callData.toList) index.toNat 32) :: l.stack.words.drop 1 ∧
    { l' with stack := l.stack } = l

/-- An opcode pops `popped` words and copies bytes into the memory, and changes no other byte. -/
def Copies (op : LocalOp) (c : Scope) (l : Locals) (popped dest : ℕ) (bytes : Bytes) : Prop :=
  ∃ l', op c l = .ok .continue l' ∧ l'.stack.words = l.stack.words.drop popped ∧
    cells 0 l'.memory.data = overlay (cells 0 l.memory.data) dest bytes ∧
    { l' with stack := l.stack, memory := l.memory } = l

variable {c : Scope} {dest src len : U256}

theorem loads_iff {index : U256} (hl : l.stack.words = index :: ws) :
    Loads c l index ↔ index.toNat < USIZE := by
  have hrun : opcodeCalldataload c l = (popUsize (l.drop 0)).andThen fun index =>
      (do
        pushWord (U256.ofBytes (calldataWord c.env.callData.toList index))
        pure .continue) := rfl
  rw [popUsize_drop (n := 0) hl] at hrun
  unfold Loads
  rw [hrun]
  by_cases hindex : index.toNat < USIZE
  · have hroom : (l.drop 1).stack.HasRoom := by
      have hbound := l.stack.bound
      rw [hl, List.length_cons] at hbound
      rw [Stack.HasRoom, Locals.words_drop, hl]
      exact hbound
    rw [if_pos hindex, Outcome.ok_andThen, bind_run, pushWord_eq hroom, Outcome.ok_andThen,
      calldataWord_eq_window hindex]
    exact iff_of_true ⟨_, rfl, rfl, rfl⟩ hindex
  · rw [if_neg hindex]
    refine iff_of_false ?_ hindex
    rintro ⟨l', h, -⟩
    cases h

/-- **The tail of a copy**: the bytes are written. -/
theorem writeBuffer_ok {dest len : ℕ} (hmem : l.memory.Whole) (source : Bytes) (src : ℕ)
    (hroom : dest + len ≤ MAX_MEMORY_SIZE) :
    ∃ m', writeBuffer dest len source src l = .ok () { l with memory := m' } ∧
      cells 0 m'.data = overlay (cells 0 l.memory.data) dest (window (cells 0 source) src len) := by
  obtain ⟨m', hrun, hcells⟩ := hmem.writeBuffer source src hroom
  refine ⟨m', ?_, hcells⟩
  rw [writeBuffer, onMemory, hrun]

/-- Three positions are popped, and a source copied that the last of them does not change. -/
theorem copies_iff {op : LocalOp} {source : Bytes} (hmem : l.memory.Whole)
    (hl : l.stack.words.drop n = dest :: src :: len :: ws)
    (hroom : dest.toNat + len.toNat ≤ MAX_MEMORY_SIZE)
    (hrun : op c l = (do
      let memoryOffset ← popUsize
      let dataOffset ← popUsize
      let length ← popUsize
      writeBuffer memoryOffset length source dataOffset
      pure .continue : LocalM LocalAction) (l.drop n)) :
    Copies op c l (n + 3) dest.toNat (window (cells 0 source) src.toNat len.toNat) ↔
      src.toNat < USIZE := by
  have husize : MAX_MEMORY_SIZE < USIZE := by decide
  have hl₁ : l.stack.words.drop (n + 1) = src :: len :: ws := by
    rw [← List.drop_drop, hl]
    rfl
  have hl₂ : l.stack.words.drop (n + 2) = len :: ws := by
    rw [← List.drop_drop, hl]
    rfl
  unfold Copies
  rw [hrun, bind_run, popUsize_drop hl, if_pos (by omega), Outcome.ok_andThen, bind_run,
    popUsize_drop hl₁]
  by_cases hsrc : src.toNat < USIZE
  · obtain ⟨m', hwrite, hcells⟩ :=
      writeBuffer_ok (l := l.drop (n + 3)) hmem source src.toNat hroom
    rw [if_pos hsrc, Outcome.ok_andThen, bind_run, popUsize_drop hl₂, if_pos (by omega),
      Outcome.ok_andThen, bind_run, hwrite, Outcome.ok_andThen]
    exact iff_of_true ⟨_, rfl, rfl, hcells, rfl⟩ hsrc
  · rw [if_neg hsrc]
    refine iff_of_false ?_ hsrc
    rintro ⟨l', h, -⟩
    cases h

/-- **Behind the end of its source an opcode reads zeros, if and only if the offset is a machine
word.** -/
theorem zeros_behind_the_end (hmem : l.memory.Whole) :
    (∀ index ws, l.stack.words = index :: ws → (Loads c l index ↔ index.toNat < USIZE)) ∧
    (∀ dest src len ws, l.stack.words = dest :: src :: len :: ws →
      dest.toNat + len.toNat ≤ MAX_MEMORY_SIZE →
      (Copies opcodeCalldatacopy c l 3 dest.toNat
        (window (cells 0 c.env.callData.toList) src.toNat len.toNat) ↔ src.toNat < USIZE) ∧
      (Copies opcodeCodecopy c l 3 dest.toNat
        (window (cells 0 c.env.executionCode.toList) src.toNat len.toNat) ↔ src.toNat < USIZE)) ∧
    ∀ address dest src len ws code d, l.stack.words = address :: dest :: src :: len :: ws →
      dest.toNat + len.toNat ≤ MAX_MEMORY_SIZE →
      ExecutorState.code c.B (address.setWidth 160) c.db = .ok code d →
      (Copies opcodeExtcodecopy c l 4 dest.toNat
        (window (cells 0 code.toList) src.toNat len.toNat) ↔ src.toNat < USIZE) := by
  refine ⟨fun index ws hl => loads_iff hl, fun dest src len ws hl hroom =>
    ⟨copies_iff (n := 0) hmem hl hroom rfl, copies_iff (n := 0) hmem hl hroom rfl⟩, ?_⟩
  intro address dest src len ws code d hl hroom hcode
  have haddress : popAddress l = .ok (address.setWidth 160) (l.drop 1) := by
    rw [popAddress, bind_run, show popWord l = _ from popWord_drop (n := 0) hl]
    rfl
  have hread : (readDb c (ExecutorState.code c.B (address.setWidth 160)) : LocalM Buffer) =
      pure code := by
    funext l
    rw [readDb, hcode]
    rfl
  refine copies_iff (n := 1) hmem (by rw [hl]; rfl) hroom ?_
  rw [opcodeExtcodecopy, bind_run, haddress, Outcome.ok_andThen, hread]
  rfl

end

theorem Locals.whole_withStack {words : List U256} {h : words.length ≤ STACK_LIMIT} :
    (Locals.withStack words h).memory.Whole := Memory.whole_new

/-- Far behind the end of the call data there are zeros. -/
theorem zeros_behind_the_end_load :
    Loads .bare (.withStack [0x8000000000000000] (by decide)) 0x8000000000000000 :=
  ((zeros_behind_the_end Locals.whole_withStack).1 _ [] rfl).2 (by decide)

/-- **An offset that is no machine word fails**, where there are only zeros. -/
theorem load_fails_behind_the_machine_words :
    (Locals.withStack [0x10000000000000000] (by decide)).memory.Whole ∧
      ¬Loads .bare (.withStack [0x10000000000000000] (by decide)) 0x10000000000000000 :=
  ⟨Locals.whole_withStack, fun h => absurd ((loads_iff rfl).1 h) (by decide)⟩

/-! ## Immediates -/

/-- The frame runs legacy code, and stands at a `PUSHn`. -/
structure Session.AtPush (x : Session) (s : Evm) (n : ℕ) : Prop where
  running : x.progress = .running s
  legacy : s.env.Legacy
  range : 1 ≤ n ∧ n ≤ 32
  opcode : s.env.executionCode.toList[s.frame.locals.pc]? = some (0x5F + UInt8.ofNat n)

/-- The number that the `n` bytes behind an opcode spell, zeros behind the end of the code. -/
def immediate (code : Buffer) (pc n : ℕ) : U256 :=
  U256.ofBytes (window (cells 0 code.toList) (pc + 1) n)

/-- **The next step pushes the immediate**, goes on behind it, and changes nothing else. -/
def Session.PushesImmediate [Platform] (B : AccountStorage) (x : Session) (s : Evm) (n : ℕ) : Prop :=
  ∃ tracer stack, stack.words =
      immediate s.env.executionCode s.frame.locals.pc n :: s.frame.locals.stack.words ∧
    (x.after B .next).progress = .running (({ s with tracer := tracer } : Evm).setLocals
      { s.frame.locals with stack := stack, pc := s.frame.locals.pc + 1 + n })

/-- **The next step refuses the opcode.** -/
def Session.RefusesImmediate [Platform] (B : AccountStorage) (x : Session) (s : Evm) : Prop :=
  ∃ tracer, (x.after B .next).progress =
    .failed (.pushOutOfBounds s.env.context.contract) { s with tracer := tracer }

section

variable [Platform] {B : AccountStorage} {x : Session} {s : Evm} {n : ℕ}

/-- The last position that has to be in the code: the last byte of the immediate of `PUSH1`, and the
byte behind that of any other. -/
def pushBound (pc n : ℕ) : ℕ := if n = 1 then pc + 1 else pc + 1 + n

/-- EOF code has the same `PUSHn`. -/
theorem tableOf_push_eof (h : 1 ≤ n ∧ n ≤ 32) :
    tableOf true (0x5F + UInt8.ofNat n) = tableOf false (0x5F + UInt8.ofNat n) := by
  have hkeys : EOF_OPCODES.map Prod.fst =
      [0x5C, 0x5D, 0x5E, 0xB0, 0xB1, 0xF2, 0xFF, 0x56, 0x57, 0x58] := rfl
  have hnot : ∀ k : Fin 32, 0x5F + UInt8.ofNat (k + 1) ∉
      [0x5C, 0x5D, 0x5E, 0xB0, 0xB1, 0xF2, 0xFF, 0x56, 0x57, 0x58] := by
    decide
  have hlookup : EOF_OPCODES.lookup (0x5F + UInt8.ofNat n) = none := by
    rw [List.lookup_eq_none_iff]
    intro p hp
    have hmem := hnot ⟨n - 1, by omega⟩
    rw [Nat.sub_add_cancel h.1, ← hkeys] at hmem
    rw [bne_iff_ne]
    exact fun heq => hmem (List.mem_map.2 ⟨p, hp, heq.symm⟩)
  rw [tableOf, if_pos rfl, eofOpcodeOf, hlookup]
  rfl

/-- The opcode of a `PUSHn`, under either table. -/
theorem tableOf_push (isEof : Bool) (h : 1 ≤ n ∧ n ≤ 32) :
    ∃ op, tableOf isEof (0x5F + UInt8.ofNat n) = .loc op ∧
      ∀ c l, op c l = pushImmediate n (pushBound l.pc n) c l := by
  have htable : tableOf isEof (0x5F + UInt8.ofNat n) = tableOf false (0x5F + UInt8.ofNat n) := by
    cases isEof with
    | false => rfl
    | true => exact tableOf_push_eof h
  rw [htable]
  obtain ⟨h₁, h₂⟩ := h
  interval_cases n <;> exact ⟨_, rfl, fun _ _ => rfl⟩

omit [Platform] in
/-- A turn ends with a jump. -/
theorem Evm.conclude_jump {target : ℕ} (u : Evm) : Evm.conclude (.jump target) u =
    .running (({ u with tracer := u.tracer.map (· ++ [.endStep none]) } : Evm).setLocals
      { u.frame.locals with pc := target }) := by
  unfold Evm.conclude Evm.traceEndStep
  rw [if_neg OpAction.noConfusion]
  rfl

/-- **A `PUSHn` pushes its immediate if and only if the code goes on far enough**, and is refused
else. -/
theorem Session.AtPush.step (h : x.AtPush s n) (hroom : s.frame.locals.stack.HasRoom) :
    if pushBound s.frame.locals.pc n < s.env.executionCode.len then x.PushesImmediate B s n
    else x.RefusesImmediate B s := by
  obtain ⟨hs, hlegacy, hn, hop⟩ := h
  have hb : s.byteAt = some (0x5F + UInt8.ofNat n) := by
    unfold Evm.byteAt getCode
    rw [show s.env.container = none from hlegacy]
    dsimp only
    rw [Buffer.getOrDefault, List.getD_eq_getElem?_getD, hop, Option.getD_some]
  obtain ⟨op, htable, hrun⟩ := tableOf_push (n := n) x.isEof hn
  obtain ⟨tracer, hok, herr, -⟩ := Session.after_loc (B := B) hs hb htable
  set l := s.frame.locals with hl
  set c : Scope := ⟨B, s.env, s.backend.toDatabase⟩ with hc
  have hcode : runningCode c l = .ok s.env.executionCode l := by
    rw [runningCode, getCode, show c.env.container = none from hlegacy]
  have hpush := hrun c l
  rw [pushImmediate, bind_run, hcode, Outcome.ok_andThen, bind_run, get_run, Outcome.ok_andThen,
    bind_run] at hpush
  split_ifs with hbound
  · have hinside : l.pc + 1 + n ≤ s.env.executionCode.toList.length := by
      rw [pushBound] at hbound
      rw [Buffer.len] at hbound
      split_ifs at hbound <;> omega
    have himmediate : U256.ofBytes ((s.env.executionCode.toList.drop (l.pc + 1)).take n) =
        immediate s.env.executionCode l.pc n := by
      rw [immediate, take_drop_eq_window hinside]
    rw [failIf, if_neg (by simpa using hbound), pure_run, Outcome.ok_andThen, bind_run, himmediate,
      pushWord_eq hroom, Outcome.ok_andThen, pure_run] at hpush
    exact ⟨tracer.map (· ++ [Event.endStep none]), ⟨_ :: l.stack.words, hroom⟩, rfl,
      (hok _ _ hpush).trans (Evm.conclude_jump _)⟩
  · rw [failIf, if_pos (by simpa using hbound)] at hpush
    exact ⟨tracer, herr _ _ hpush⟩

/-- **A `PUSHn` pushes its immediate** where that lies in the code, with another byte behind it, and
`PUSH1` without; where the immediate does not lie in the code, the opcode is refused. -/
theorem push_reads_immediate_inside (h : x.AtPush s n) (hroom : s.frame.locals.stack.HasRoom) :
    ((s.frame.locals.pc + 1 + n < s.env.executionCode.len ∨
        n = 1 ∧ s.frame.locals.pc + 1 < s.env.executionCode.len) → x.PushesImmediate B s n) ∧
      (s.env.executionCode.len < s.frame.locals.pc + 1 + n → x.RefusesImmediate B s) := by
  have hstep := h.step (B := B) hroom
  have hrange := h.range
  refine ⟨fun hinside => ?_, fun hpast => ?_⟩
  · have hbound : pushBound s.frame.locals.pc n < s.env.executionCode.len := by
      rw [pushBound]
      split_ifs <;> omega
    rwa [if_pos hbound] at hstep
  · have hbound : ¬pushBound s.frame.locals.pc n < s.env.executionCode.len := by
      rw [pushBound]
      split_ifs <;> omega
    rwa [if_neg hbound] at hstep

end

/-- A machine at the start of a legacy code. -/
def Evm.atStart (code : Bytes) : Evm where
  frame := ⟨{ Scope.bare.env with executionCode := .fromSlice code }, .new⟩
  parents := []
  backend := ExecutorState.new Scope.bare.B
  tracer := none

/-- The session that runs it. -/
def Session.atStart (code : Bytes) : Session := ⟨false, .running (.atStart code)⟩

theorem Session.atPush_atStart {code : Bytes} {n : ℕ} (hn : 1 ≤ n ∧ n ≤ 32)
    (hcode : code[0]? = some (0x5F + UInt8.ofNat n)) :
    (Session.atStart code).AtPush (.atStart code) n :=
  ⟨rfl, rfl, hn, (congrArg (·[0]?) (Buffer.toList_fromSlice code)).trans hcode⟩

theorem Evm.hasRoom_atStart (code : Bytes) : (Evm.atStart code).frame.locals.stack.HasRoom :=
  show 0 < STACK_LIMIT by decide

/-- A `PUSH2` with a byte behind its immediate. -/
theorem push_reads_immediate_inside_two : ∃ (_ : Platform) (B : AccountStorage),
    (Session.atStart [0x61, 0xAA, 0xBB, 0x00]).PushesImmediate B
      (.atStart [0x61, 0xAA, 0xBB, 0x00]) 2 :=
  ⟨Platform.bare, .holding fun _ => [],
    letI := Platform.bare
    (push_reads_immediate_inside (Session.atPush_atStart (by decide) rfl) (Evm.hasRoom_atStart _)).1
      (.inl (by decide))⟩

/-- **A `PUSH2` fails** where its immediate is cut off, and where it is the end of the code. -/
theorem push_fails_at_the_end : ∃ (_ : Platform) (B : AccountStorage),
    ∀ code ∈ [[0x61, 0xAA], [0x61, 0xAA, 0xBB]],
      (Session.atStart code).AtPush (.atStart code) 2 ∧
        (Evm.atStart code).frame.locals.stack.HasRoom ∧
          ¬(Session.atStart code).PushesImmediate B (.atStart code) 2 := by
  let _ := Platform.bare
  refine ⟨Platform.bare, .holding fun _ => [], fun code hcode => ?_⟩
  have hat : (Session.atStart code).AtPush (.atStart code) 2 := by
    refine Session.atPush_atStart (by decide) ?_
    simp only [List.mem_cons, List.not_mem_nil, or_false] at hcode
    rcases hcode with rfl | rfl <;> rfl
  have hroom := Evm.hasRoom_atStart code
  have hstep := hat.step (B := .holding fun _ => []) hroom
  have hbound : ¬pushBound (Evm.atStart code).frame.locals.pc 2 <
      (Evm.atStart code).env.executionCode.len := by
    simp only [List.mem_cons, List.not_mem_nil, or_false] at hcode
    rcases hcode with rfl | rfl <;> decide
  rw [if_neg hbound] at hstep
  obtain ⟨tracer, hrefused⟩ := hstep
  refine ⟨hat, hroom, ?_⟩
  rintro ⟨_, _, _, hpushed⟩
  rw [hrefused] at hpushed
  cases hpushed

end NeonEvm
