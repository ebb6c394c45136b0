import NeonEvm.Evm.Landing
import NeonEvm.Lib.Chunks

/-!
# Evm/Advance — where an opcode of a frame goes on

    PUSHn                    behind its operand
    JUMP, JUMPI              at the word on the stack, if there is a JUMPDEST byte
    RJUMP, RJUMPI, RJUMPV    anywhere, under the table of EOF code
    CALLF, RETF              in a function, where the code has functions
    any other                at the next byte

No opcode moves the program counter itself, and none shortens the memory.
-/

namespace NeonEvm

open Exec ExecutorState Chain Locals

/-! ## What an opcode keeps -/

/-- The memory has the bytes that its capacity counts. -/
structure Memory.Whole (m : Memory) : Prop where
  length : m.data.length = m.capacity

/-- **What every opcode keeps of the locals** of its frame. -/
structure Locals.Stays (env : CallEnv) (l l' : Locals) : Prop where
  pc : l'.pc = l.pc
  memory : l.memory.Whole → l'.memory.Whole
  returnStack : env.container = none → l'.returnStack = l.returnStack

section

variable {α β : Type} {E : CallEnv} {m : Memory} {offset length : ℕ}

theorem Locals.Stays.refl (env : CallEnv) (l : Locals) : Stays env l l := ⟨rfl, id, fun _ => rfl⟩

instance : IsTrans Locals (Stays E) :=
  ⟨fun _ _ _ h h' => ⟨h'.pc.trans h.pc, h'.memory ∘ h.memory, fun hc =>
    (h'.returnStack hc).trans (h.returnStack hc)⟩⟩

instance : Std.Refl (Stays E) := ⟨.refl E⟩

theorem stays_onStack (f : Stack → Except Error (α × Stack)) : Moves (Stays E) (onStack f) := by
  intro l
  unfold onStack
  cases f l.stack with
  | ok r => exact ⟨rfl, id, fun _ => rfl⟩
  | error e => exact .refl E l

theorem stays_popWord : Moves (Stays E) popWord := stays_onStack _

theorem stays_popUsize : Moves (Stays E) popUsize := moves_bind stays_popWord fun _ => moves_lift _

theorem stays_popAddress : Moves (Stays E) popAddress :=
  moves_bind stays_popWord fun _ => moves_pure _

theorem stays_pushWord (w : U256) : Moves (Stays E) (pushWord w) := stays_onStack _

/-! ### Memory -/

theorem Memory.whole_new : Memory.new.Whole := ⟨List.length_replicate⟩

/-- The end of an access, in whole words, is not before its end. -/
theorem le_of_nextMultiple {n : ℕ}
    (h : (checkedAdd offset length).bind checkedNextMultipleOf32 = some n) :
    offset + length ≤ n := by
  unfold checkedNextMultipleOf32 checkedAdd at h
  split_ifs at h with hend
  · rw [Option.bind_some] at h
    split_ifs at h with hword
    · rw [Option.map_some, Option.some.injEq] at h
      omega
    · cases h
  · cases h

/-- **Making room** keeps a memory whole; if it is not refused, the room is there. -/
theorem Memory.realloc_whole (h : m.Whole) (offset length : ℕ) :
    (m.realloc offset length).1.Whole ∧ ((m.realloc offset length).2 = .ok () →
      offset + length ≤ (m.realloc offset length).1.capacity) := by
  unfold realloc
  cases hn : (checkedAdd offset length).bind checkedNextMultipleOf32 with
  | none => exact ⟨h, fun h => (nomatch h)⟩
  | some newSize =>
    have hend := le_of_nextMultiple hn
    dsimp only
    set m' := if m.size < newSize then { m with size := newSize } else m with hm'
    have hdata : m'.data = m.data := by rw [hm']; split <;> rfl
    have hcapacity : m'.capacity = m.capacity := by rw [hm']; split <;> rfl
    have hwhole : m'.Whole := ⟨by rw [hdata, hcapacity]; exact h.length⟩
    by_cases hroom : newSize ≤ m.capacity
    · rw [if_pos hroom]
      exact ⟨hwhole, fun _ => hcapacity ▸ hend.trans hroom⟩
    · rw [if_neg hroom, checkedNextPowerOfTwo]
      have hle : newSize ≤ 2 ^ Nat.clog 2 newSize := Nat.le_pow_clog (by decide) _
      by_cases hpow : 2 ^ Nat.clog 2 newSize < USIZE
      · rw [if_pos hpow]
        dsimp only
        by_cases hlimit : MAX_MEMORY_SIZE < 2 ^ Nat.clog 2 newSize
        · rw [if_pos hlimit]
          exact ⟨hwhole, fun h => (nomatch h)⟩
        · rw [if_neg hlimit]
          refine ⟨?_, fun _ => hend.trans hle⟩
          constructor
          rw [List.length_append, List.length_replicate, h.length]
          exact Nat.add_sub_of_le (not_le.1 hroom |>.le.trans hle)
      · rw [if_neg hpow]
        exact ⟨hwhole, fun h => (nomatch h)⟩

/-- **A write** keeps a memory whole. -/
theorem Memory.storeAt_whole (h : m.Whole) (offset : ℕ) (bytes : Bytes) :
    (m.storeAt offset bytes).1.Whole := by
  obtain ⟨hwhole, hroom⟩ := realloc_whole h offset bytes.length
  unfold storeAt
  rcases hr : m.realloc offset bytes.length with ⟨m', r⟩
  rw [hr] at hwhole hroom
  cases r with
  | error e => exact hwhole
  | ok u =>
    have hfits : offset + bytes.length ≤ m'.data.length :=
      (hroom rfl).trans hwhole.length.ge
    exact ⟨(Chunks.length_overwrite hfits).trans hwhole.length⟩

theorem Memory.writeBuffer_whole (h : m.Whole) (source : Bytes) (sourceOffset : ℕ) :
    (m.writeBuffer offset length source sourceOffset).1.Whole := by
  unfold writeBuffer
  split_ifs
  · exact h
  · exact storeAt_whole h _ _

theorem Memory.read_whole (h : m.Whole) : (m.read offset length).1.Whole := by
  unfold read
  split_ifs
  · exact h
  · exact (realloc_whole h _ _).1

theorem Memory.read32_whole (h : m.Whole) : (m.read32 offset).1.Whole := (realloc_whole h _ _).1

/-- A memory operation that keeps memories whole. -/
theorem stays_onMemory {f : Memory → Memory × Except Error α} (hf : ∀ m, m.Whole → (f m).1.Whole) :
    Moves (Stays E) (onMemory f) := by
  intro l
  have h := hf l.memory
  unfold onMemory
  rcases hm : f l.memory with ⟨m, _ | _⟩
  · rw [hm] at h
    exact ⟨rfl, h, fun _ => rfl⟩
  · rw [hm] at h
    exact ⟨rfl, h, fun _ => rfl⟩

theorem stays_readMemory (offset length : ℕ) : Moves (Stays E) (readMemory offset length) :=
  stays_onMemory fun _ => Memory.read_whole

theorem stays_readBuffer (offset length : ℕ) : Moves (Stays E) (readBuffer offset length) :=
  moves_bind (stays_readMemory _ _) fun _ => moves_pure _

theorem stays_writeBuffer (offset length : ℕ) (source : Bytes) (sourceOffset : ℕ) :
    Moves (Stays E) (writeBuffer offset length source sourceOffset) :=
  stays_onMemory fun _ h => Memory.writeBuffer_whole h source sourceOffset

theorem stays_writeRange (range : Range) (source : Bytes) :
    Moves (Stays E) (writeRange range source) :=
  stays_onMemory fun _ h => Memory.writeBuffer_whole h source 0

theorem stays_runningCode (c : Scope) : Moves (Stays E) (runningCode c) := by
  intro l
  unfold runningCode
  cases getCode c.env l with
  | ok code => exact .refl E l
  | error f => trivial

theorem stays_readDb (c : Scope) (x : Db α) : Moves (Stays E) (readDb c x) := by
  intro l
  unfold readDb
  cases x c.db with
  | ok a d => exact .refl E l
  | err e d => exact .refl E l
  | panic f => trivial

end

/-! ## Where an opcode goes on -/

/-- The bytes of the operand behind a legacy opcode. -/
def operandLen (b : UInt8) : ℕ := if 0x60 ≤ b ∧ b ≤ 0x7F then (b - 0x5F).toNat else 0

def JUMP : UInt8 := 0x56

def JUMPI : UInt8 := 0x57

/-- The position on the stack of a jump that is taken. -/
def jumpTarget (b : UInt8) (l : Locals) : Option ℕ :=
  match l.stack.words with
  | [] => none
  | w :: ws =>
    if b = JUMP ∨ b = JUMPI ∧ ws.head?.any (· ≠ 0) then w.toUsize? else none

/-- **Where the opcode of the byte `b` goes on.** -/
inductive GoesTo (b : UInt8) (env : CallEnv) (l : Locals) : LocalAction → Prop
  | next (h : operandLen b = 0) : GoesTo b env l .continue
  | push (h : operandLen b ≠ 0) : GoesTo b env l (.jump (l.pc + 1 + operandLen b))
  | jump {target : ℕ} (h : jumpTarget b l = some target)
      (hdest : env.executionCode.toList[target]? = some JUMPDEST) : GoesTo b env l (.jump target)
  | relative {a : LocalAction} (h : b = opcode.RJUMP ∨ b = opcode.RJUMPI ∨ b = opcode.RJUMPV) :
    GoesTo b env l a
  | function {a : LocalAction} (h : env.container ≠ none) : GoesTo b env l a

/-- An opcode on locals goes on as its byte says. -/
def Advances (b : UInt8) (op : LocalOp) : Prop := ∀ c l,
  (op c l).Sat (fun a l' => GoesTo b c.env l a ∧ Stays c.env l l') (fun _ l' => Stays c.env l l')
    fun _ => True

/-- **An opcode that goes on** at the next byte. -/
def Plain (env : CallEnv) (x : LocalM LocalAction) : Prop := ∀ l,
  (x l).Sat (fun a l' => a = .continue ∧ Stays env l l') (fun _ l' => Stays env l l') fun _ => True

section

variable {α : Type} {E : CallEnv} {b : UInt8} {op : LocalOp}

theorem plain_continue : Plain E (pure .continue) := fun l => ⟨rfl, .refl E l⟩

theorem plain_fail (e : Error) : Plain E (fail e) := fun l => .refl E l

theorem plain_bind {x : LocalM α} {f : α → LocalM LocalAction} (hx : Moves (Stays E) x)
    (hf : ∀ a, Plain E (f a)) : Plain E (x >>= f) := fun l =>
  (hx l).andThen fun a l' hl => (hf a l').imp (fun _ _ h => ⟨h.1, Trans.trans hl h.2⟩)
    (fun _ _ h => Trans.trans hl h) fun _ h => h

theorem advances_of_plain (h : ∀ c, Plain c.env (op c)) (hb : operandLen b = 0) : Advances b op :=
  fun c l => (h c l).imp (fun _ _ h => ⟨h.1 ▸ .next hb, h.2⟩) (fun _ _ h => h) fun _ h => h

theorem plain_pushOp (f : Scope → Locals → U256) (c : Scope) : Plain c.env (pushOp f c) :=
  plain_bind moves_get fun _ => plain_bind (stays_pushWord _) fun _ => plain_continue

theorem plain_unaryOp (f : U256 → U256) (c : Scope) : Plain c.env (unaryOp f c) :=
  plain_bind stays_popWord fun _ => plain_bind (stays_pushWord _) fun _ => plain_continue

theorem plain_binaryOp (f : U256 → U256 → U256) (c : Scope) : Plain c.env (binaryOp f c) :=
  plain_bind stays_popWord fun _ => plain_bind stays_popWord fun _ =>
    plain_bind (stays_pushWord _) fun _ => plain_continue

theorem plain_ternaryOp (f : U256 → U256 → U256 → U256) (c : Scope) : Plain c.env (ternaryOp f c) :=
  plain_bind stays_popWord fun _ => plain_bind stays_popWord fun _ =>
    plain_bind stays_popWord fun _ => plain_bind (stays_pushWord _) fun _ => plain_continue

theorem plain_readOp (f : Scope → Db U256) (c : Scope) : Plain c.env (readOp f c) :=
  plain_bind (stays_readDb _ _) fun _ => plain_bind (stays_pushWord _) fun _ => plain_continue

theorem plain_copyOp (source : Scope → Bytes) (c : Scope) : Plain c.env (copyOp source c) :=
  plain_bind stays_popUsize fun _ => plain_bind stays_popUsize fun _ =>
    plain_bind stays_popUsize fun _ => plain_bind (stays_writeBuffer _ _ _ _) fun _ => plain_continue

theorem plain_refuseOp (error : Address → UInt8 → Error) (c : Scope) :
    Plain c.env (refuseOp error c) :=
  plain_bind (stays_runningCode _) fun _ => plain_bind moves_get fun _ =>
    plain_bind (moves_ofOption _ _) fun _ => plain_fail _

theorem plain_balance (c : Scope) : Plain c.env (opcodeBalance c) :=
  plain_bind stays_popAddress fun _ => plain_bind (stays_readDb _ _) fun _ =>
    plain_bind (stays_pushWord _) fun _ => plain_continue

theorem plain_extcodesize (c : Scope) : Plain c.env (opcodeExtcodesize c) :=
  plain_bind stays_popAddress fun _ => plain_bind (stays_readDb _ _) fun _ =>
    plain_bind (stays_pushWord _) fun _ => plain_continue

theorem plain_extcodehash [Platform] (c : Scope) : Plain c.env (opcodeExtcodehash c) :=
  plain_bind stays_popAddress fun _ => plain_bind (stays_readDb _ _) fun _ =>
    plain_bind (stays_pushWord _) fun _ => plain_continue

theorem plain_extcodecopy (c : Scope) : Plain c.env (opcodeExtcodecopy c) :=
  plain_bind stays_popAddress fun _ => plain_bind stays_popUsize fun _ =>
    plain_bind stays_popUsize fun _ => plain_bind stays_popUsize fun _ =>
    plain_bind (stays_readDb _ _) fun _ => plain_bind (stays_writeBuffer _ _ _ _) fun _ =>
    plain_continue

theorem plain_returndatacopy (c : Scope) : Plain c.env (opcodeReturndatacopy c) :=
  plain_bind stays_popUsize fun _ => plain_bind stays_popUsize fun _ =>
    plain_bind stays_popUsize fun _ => plain_bind moves_get fun _ =>
    plain_bind (moves_failIf _ _) fun _ => plain_bind (stays_writeBuffer _ _ _ _) fun _ =>
    plain_continue

theorem plain_calldataload (c : Scope) : Plain c.env (opcodeCalldataload c) :=
  plain_bind stays_popUsize fun _ => plain_bind (stays_pushWord _) fun _ => plain_continue

theorem plain_sha3 [Platform] (c : Scope) : Plain c.env (opcodeSha3 c) :=
  plain_bind stays_popUsize fun _ => plain_bind stays_popUsize fun _ =>
    plain_bind (stays_readMemory _ _) fun _ => plain_bind (stays_pushWord _) fun _ => plain_continue

theorem plain_blockhash (c : Scope) : Plain c.env (opcodeBlockhash c) :=
  plain_bind stays_popWord fun _ => plain_bind (stays_readDb _ _) fun _ =>
    plain_bind (stays_pushWord _) fun _ => plain_continue

theorem plain_pop (c : Scope) : Plain c.env (opcodePop c) :=
  plain_bind stays_popWord fun _ => plain_continue

theorem plain_mload (c : Scope) : Plain c.env (opcodeMload c) :=
  plain_bind stays_popUsize fun _ => plain_bind (stays_onMemory fun _ => Memory.read32_whole)
    fun _ => plain_bind (stays_pushWord _) fun _ => plain_continue

/-- A write of the word on the stack. -/
theorem plain_write (f : ℕ → U256 → Memory → Memory × Except Error Unit)
    (hf : ∀ offset value m, m.Whole → (f offset value m).1.Whole) (c : Scope) :
    Plain c.env (do
      let offset ← popUsize
      let value ← popWord
      onMemory fun m => f offset value m
      pure .continue) :=
  plain_bind stays_popUsize fun _ => plain_bind stays_popWord fun _ =>
    plain_bind (stays_onMemory (hf _ _)) fun _ => plain_continue

theorem plain_mstore (c : Scope) : Plain c.env (opcodeMstore c) :=
  plain_write (fun offset value m => m.write32 offset value)
    (fun offset value _ h => Memory.storeAt_whole h offset value.bytes) c

theorem plain_mstore8 (c : Scope) : Plain c.env (opcodeMstore8 c) :=
  plain_write (fun offset value m => m.writeByte offset (UInt8.ofNat value.toNat))
    (fun offset value _ h => Memory.storeAt_whole h offset [UInt8.ofNat value.toNat]) c

theorem plain_dup116 (n : ℕ) (c : Scope) : Plain c.env (opcodeDup116 n c) :=
  plain_bind (stays_onStack _) fun _ => plain_continue

theorem plain_swap116 (n : ℕ) (c : Scope) : Plain c.env (opcodeSwap116 n c) :=
  plain_bind (stays_onStack _) fun _ => plain_continue

theorem stays_popWords (ns : List ℕ) : Moves (Stays E) (forEach (fun _ => popWord) ns) := by
  induction ns with
  | nil => exact moves_pure _
  | cons n ns ih => exact moves_bind stays_popWord fun _ => moves_bind ih fun _ => moves_pure _

theorem plain_log04 (n : ℕ) (c : Scope) : Plain c.env (opcodeLog04 n c) :=
  plain_bind (moves_failIf _ _) fun _ => plain_bind stays_popUsize fun _ =>
    plain_bind stays_popUsize fun _ => plain_bind (stays_readMemory _ _) fun _ =>
    plain_bind (stays_popWords _) fun _ => plain_continue

/-! ### Jumps -/

/-- What is popped, and what is left. -/
theorem popWord_ok {l l' : Locals} {w : U256} (h : popWord l = .ok w l') :
    ∃ ws, l.stack.words = w :: ws ∧ l'.stack.words = ws := by
  unfold popWord onStack Stack.pop at h
  rcases hl : l.stack with ⟨words, bound⟩
  rw [hl] at h
  cases words with
  | nil => cases h
  | cons w' ws =>
    cases h
    exact ⟨ws, rfl, rfl⟩

theorem popUsize_ok {l l' : Locals} {n : ℕ} (h : popUsize l = .ok n l') :
    ∃ w ws, l.stack.words = w :: ws ∧ l'.stack.words = ws ∧ w.toUsize? = some n := by
  obtain ⟨w, l₁, hpop, h⟩ := bind_eq_ok.1 h
  obtain ⟨ws, hw, hl₁⟩ := popWord_ok hpop
  refine ⟨w, ws, hw, ?_, ?_⟩ <;> cases hn : w.toUsize? <;>
    simp_all [lift, zoom, tryUsize]

/-- Behind the words of a jump, the byte at its target is looked at. -/
theorem advances_jumpTo {c : Scope} {l l' : Locals} {target : ℕ} (hl : Stays c.env l l')
    (htarget : jumpTarget b l = some target) :
    (jumpTo c target l').Sat (fun a l' => GoesTo b c.env l a ∧ Stays c.env l l')
      (fun _ l' => Stays c.env l l') fun _ => True := by
  unfold jumpTo
  by_cases hdest : c.env.executionCode.toList[target]? = some JUMPDEST
  · rw [if_pos hdest]
    exact ⟨.jump htarget hdest, hl⟩
  · rw [if_neg hdest]
    exact hl

/-- A move, with what it returned. -/
theorem Moves.sat {x : LocalM α} (h : Moves (Stays E) x) (l : Locals) :
    (x l).Sat (fun a l' => x l = .ok a l' ∧ Stays E l l') (fun _ l' => Stays E l l')
      fun _ => True := by
  have hx := h l
  cases ho : x l with
  | ok a l' =>
    rw [ho] at hx
    exact ⟨rfl, hx⟩
  | err e l' =>
    rw [ho] at hx
    exact hx
  | panic f => trivial

theorem advances_jump : Advances JUMP opcodeJump := fun c l =>
  (Moves.sat stays_popUsize l).andThen fun target l₁ ⟨hpop, hl₁⟩ => by
    obtain ⟨w, ws, hw, -, hn⟩ := popUsize_ok hpop
    exact advances_jumpTo hl₁ (by rw [jumpTarget, hw]; exact (if_pos (.inl rfl)).trans hn)

theorem advances_jumpi : Advances JUMPI opcodeJumpi := fun c l =>
  (Moves.sat stays_popUsize l).andThen fun target l₁ ⟨hpop, hl₁⟩ =>
    ((Moves.sat (stays_popWord (E := c.env)) l₁).imp (fun _ _ h => h) (fun _ _ h => Trans.trans hl₁ h)
      fun _ h => h).andThen fun condition l₂ ⟨hpop', hl₂⟩ => by
      obtain ⟨w, ws, hw, hws, hn⟩ := popUsize_ok hpop
      obtain ⟨ws', hw', -⟩ := popWord_ok hpop'
      have hl : Stays c.env l l₂ := Trans.trans hl₁ hl₂
      by_cases hzero : condition = 0
      · rw [if_pos hzero]
        exact ⟨.next rfl, hl⟩
      · rw [if_neg hzero]
        refine advances_jumpTo hl ?_
        rw [jumpTarget, hw]
        refine (if_pos (.inr ⟨rfl, ?_⟩)).trans hn
        rw [← hws, hw', List.head?_cons, Option.any_some]
        exact decide_eq_true hzero

/-- Behind an operand. -/
theorem advances_pushImmediate {n : ℕ} (hb : operandLen b = n) (hn : n ≠ 0) (last : Locals → ℕ) :
    Advances b fun c => get >>= fun l => pushImmediate n (last l) c := by
  rintro c l
  show (pushImmediate n (last l) c l).Sat _ _ _
  refine (Moves.sat (stays_runningCode (E := c.env) c) l).andThen fun code l₁ ⟨hcode, hl₁⟩ => ?_
  show ((failIf (code.len ≤ last l) _ >>= _ : LocalM LocalAction) l₁).Sat _ _ _
  refine ((moves_failIf (R := Stays c.env) _ _ l₁).imp (fun _ _ h => h) (fun _ _ h => Trans.trans hl₁ h)
    fun _ h => h).andThen fun _ l₂ hl₂ => ?_
  refine ((stays_pushWord (E := c.env) _ l₂).imp (fun _ _ h => h)
    (fun _ _ h => Trans.trans hl₁ (Trans.trans hl₂ h)) fun _ h => h).andThen fun _ l₃ hl₃ => ?_
  refine ⟨?_, Trans.trans hl₁ (Trans.trans hl₂ hl₃)⟩
  rw [hl₁.pc, ← hb]
  exact .push (hb ▸ hn)

theorem advances_relative (h : b = opcode.RJUMP ∨ b = opcode.RJUMPI ∨ b = opcode.RJUMPV)
    (hop : ∀ c, Moves (Stays c.env) (op c)) : Advances b op := fun c l =>
  (hop c l).imp (fun _ _ hl => ⟨.relative h, hl⟩) (fun _ _ h => h) fun _ h => h

theorem stays_rjump (c : Scope) : Moves (Stays c.env) (opcodeRjump c) :=
  moves_bind (stays_runningCode _) fun _ => moves_bind moves_get fun _ => moves_pure _

theorem stays_rjumpi (c : Scope) : Moves (Stays c.env) (opcodeRjumpi c) :=
  moves_bind stays_popWord fun _ => moves_ite (fun _ => moves_bind moves_get fun _ => moves_pure _)
    fun _ => stays_rjump c

theorem stays_rjumpv (c : Scope) : Moves (Stays c.env) (opcodeRjumpv c) :=
  moves_bind stays_popWord fun _ => moves_bind (stays_runningCode _) fun _ =>
    moves_bind moves_get fun _ => moves_ite (fun _ => moves_pure _) fun _ => moves_pure _

theorem advances_callf : Advances opcode.CALLF opcodeCallf := fun c l => by
  refine (Moves.sat (stays_runningCode (E := c.env) c) l).andThen fun code l₁ ⟨_, hl₁⟩ => ?_
  simp only [bind_run, get_run, Outcome.ok_andThen]
  cases hc : c.env.container with
  | none => exact hl₁
  | some container =>
    have hsome : c.env.container ≠ none := hc ▸ Option.some_ne_none container
    have step {α : Type} {x : LocalM α} {l₂ : Locals} {f : α → LocalM LocalAction}
        (hl : Stays c.env l l₂) (hx : Moves (Stays c.env) x)
        (hf : ∀ a l₃, Stays c.env l l₃ → (f a l₃).Sat
          (fun a l' => GoesTo opcode.CALLF c.env l a ∧ Stays c.env l l') (fun _ l' => Stays c.env l l')
          fun _ => True) :
        ((x >>= f) l₂).Sat (fun a l' => GoesTo opcode.CALLF c.env l a ∧ Stays c.env l l')
          (fun _ l' => Stays c.env l l') fun _ => True :=
      ((hx l₂).imp (fun _ _ h => Trans.trans hl h) (fun _ _ h => Trans.trans hl h)
        fun _ h => h).andThen hf
    refine step hl₁ (moves_ofOption _ _) fun typ l₂ hl₂ => ?_
    refine step hl₂ (moves_failIf _ _) fun _ l₃ hl₃ => ?_
    have hentered : Moves (Stays c.env) (modify fun l : Locals =>
        { l with returnStack :=
          ⟨l₁.codeSection, l₁.pc + 3, wrappingAdd l₁.stack.len (USIZE - typ.input.toNat)⟩ ::
            l.returnStack } : LocalM Unit) := moves_modify fun _ => ⟨rfl, id, fun h => (hsome h).elim⟩
    exact step hl₃ hentered fun _ l₄ hl₄ => ⟨.function hsome, hl₄⟩

/-! ### The table -/

/-- What an entry of the table says of its byte. -/
def EntryOk : UInt8 × Opcode → Prop
  | (b, .loc op) => Advances b op
  | (b, .sys _) => operandLen b = 0

theorem entryOk_plain (h : ∀ c, Plain c.env (op c)) (hb : operandLen b = 0) :
    EntryOk (b, .loc op) := advances_of_plain h hb

theorem entryOk_arithmetic : ∀ e ∈ arithmeticTable, EntryOk e := by
  have binary {b : UInt8} (hb : operandLen b = 0) (f : U256 → U256 → U256) :
      EntryOk (b, .loc (binaryOp f)) := entryOk_plain (plain_binaryOp f) hb
  have ternary {b : UInt8} (hb : operandLen b = 0) (f : U256 → U256 → U256 → U256) :
      EntryOk (b, .loc (ternaryOp f)) := entryOk_plain (plain_ternaryOp f) hb
  simp only [arithmeticTable, List.forall_mem_cons, List.not_mem_nil, false_imp_iff, implies_true,
    and_true]
  exact ⟨rfl, binary rfl _, binary rfl _, binary rfl _, binary rfl _, binary rfl _, binary rfl _,
    binary rfl _, ternary rfl _, ternary rfl _, binary rfl _, binary rfl _⟩

theorem entryOk_bits [Platform] : ∀ e ∈ bitTable, EntryOk e := by
  have unary {b : UInt8} (hb : operandLen b = 0) (f : U256 → U256) :
      EntryOk (b, .loc (unaryOp f)) := entryOk_plain (plain_unaryOp f) hb
  have binary {b : UInt8} (hb : operandLen b = 0) (f : U256 → U256 → U256) :
      EntryOk (b, .loc (binaryOp f)) := entryOk_plain (plain_binaryOp f) hb
  simp only [bitTable, List.forall_mem_cons, List.not_mem_nil, false_imp_iff, implies_true,
    and_true]
  exact ⟨binary rfl _, binary rfl _, binary rfl _, binary rfl _, binary rfl _, unary rfl _,
    binary rfl _, binary rfl _, binary rfl _, unary rfl _, binary rfl _, binary rfl _,
    binary rfl _, binary rfl _, entryOk_plain plain_sha3 rfl⟩

theorem entryOk_environment [Platform] : ∀ e ∈ environmentTable, EntryOk e := by
  have push {b : UInt8} (hb : operandLen b = 0) (f : Scope → Locals → U256) :
      EntryOk (b, .loc (pushOp f)) := entryOk_plain (plain_pushOp f) hb
  have copy {b : UInt8} (hb : operandLen b = 0) (source : Scope → Bytes) :
      EntryOk (b, .loc (copyOp source)) := entryOk_plain (plain_copyOp source) hb
  simp only [environmentTable, List.forall_mem_cons, List.not_mem_nil, false_imp_iff, implies_true,
    and_true]
  exact ⟨push rfl _, entryOk_plain plain_balance rfl, push rfl _, push rfl _, push rfl _,
    entryOk_plain plain_calldataload rfl, push rfl _, copy rfl _, push rfl _, copy rfl _,
    push rfl _, entryOk_plain plain_extcodesize rfl, entryOk_plain plain_extcodecopy rfl,
    push rfl _, entryOk_plain plain_returndatacopy rfl, entryOk_plain plain_extcodehash rfl⟩

theorem entryOk_block : ∀ e ∈ blockTable, EntryOk e := by
  have push {b : UInt8} (hb : operandLen b = 0) (f : Scope → Locals → U256) :
      EntryOk (b, .loc (pushOp f)) := entryOk_plain (plain_pushOp f) hb
  have read {b : UInt8} (hb : operandLen b = 0) (f : Scope → Db U256) :
      EntryOk (b, .loc (readOp f)) := entryOk_plain (plain_readOp f) hb
  simp only [blockTable, List.forall_mem_cons, List.not_mem_nil, false_imp_iff, implies_true,
    and_true]
  exact ⟨entryOk_plain plain_blockhash rfl, push rfl _, read rfl _, read rfl _, push rfl _,
    push rfl _, push rfl _, read rfl _, push rfl _⟩

theorem entryOk_flow : ∀ e ∈ flowTable, EntryOk e := by
  have push {b : UInt8} (hb : operandLen b = 0) (f : Scope → Locals → U256) :
      EntryOk (b, .loc (pushOp f)) := entryOk_plain (plain_pushOp f) hb
  simp only [flowTable, List.forall_mem_cons, List.not_mem_nil, false_imp_iff, implies_true,
    and_true]
  exact ⟨entryOk_plain plain_pop rfl, entryOk_plain plain_mload rfl, entryOk_plain plain_mstore rfl,
    entryOk_plain plain_mstore8 rfl, rfl, rfl, advances_jump, advances_jumpi, push rfl _,
    push rfl _, push rfl _, entryOk_plain (fun _ => plain_continue) rfl, push rfl _,
    advances_pushImmediate rfl (by decide) _, advances_pushImmediate rfl (by decide) _⟩

theorem entryOk_system : ∀ e ∈ systemTable, EntryOk e := by
  simp only [systemTable, List.forall_mem_cons, List.not_mem_nil, false_imp_iff, implies_true,
    and_true]
  exact ⟨rfl, rfl, rfl, rfl, rfl, rfl, rfl, rfl, entryOk_plain (plain_refuseOp _) rfl, rfl⟩

theorem entryOk_family : ∀ e ∈ familyTable, EntryOk e := by
  have hpush : ∀ n < 30, operandLen (0x61 + UInt8.ofNat n) = n + 2 := by decide
  have hdup : ∀ n < 16, operandLen (0x80 + UInt8.ofNat n) = 0 := by decide
  have hswap : ∀ n < 16, operandLen (0x90 + UInt8.ofNat n) = 0 := by decide
  have hlog : ∀ n < 5, operandLen (0xA0 + UInt8.ofNat n) = 0 := by decide
  simp only [familyTable, List.mem_append, List.mem_map, List.mem_range]
  rintro e (((⟨n, hn, rfl⟩ | ⟨n, hn, rfl⟩) | ⟨n, hn, rfl⟩) | ⟨n, hn, rfl⟩)
  · exact advances_pushImmediate (hpush n hn) (Nat.succ_ne_zero _) _
  · exact entryOk_plain (plain_dup116 _) (hdup n hn)
  · exact entryOk_plain (plain_swap116 _) (hswap n hn)
  · exact entryOk_plain (plain_log04 _) (hlog n hn)

theorem entryOk_opcodes [Platform] : ∀ e ∈ OPCODES, EntryOk e := by
  simp only [OPCODES, List.forall_mem_append]
  exact ⟨⟨⟨⟨⟨⟨entryOk_arithmetic, entryOk_bits⟩, entryOk_environment⟩, entryOk_block⟩,
    entryOk_flow⟩, entryOk_system⟩, entryOk_family⟩

theorem entryOk_eof : ∀ e ∈ EOF_OPCODES, EntryOk e := by
  have deprecated {b : UInt8} (hb : operandLen b = 0) : EntryOk (b, .loc opcodeDeprecated) :=
    entryOk_plain (plain_refuseOp _) hb
  simp only [EOF_OPCODES, List.forall_mem_cons, List.not_mem_nil, false_imp_iff, implies_true,
    and_true]
  exact ⟨advances_relative (.inl rfl) stays_rjump, advances_relative (.inr (.inl rfl)) stays_rjumpi,
    advances_relative (.inr (.inr rfl)) stays_rjumpv, advances_callf, rfl, deprecated rfl,
    deprecated rfl, deprecated rfl, deprecated rfl, deprecated rfl⟩

/-- An entry is found under its byte. -/
theorem lookup_mem {b : UInt8} {o : Opcode} {table : List (UInt8 × Opcode)}
    (h : table.lookup b = some o) : (b, o) ∈ table := by
  induction table with
  | nil => cases h
  | cons e table ih =>
    obtain ⟨k, v⟩ := e
    by_cases hk : b = k
    · subst hk
      rw [List.lookup_cons_self] at h
      exact List.mem_cons.2 (.inl (by rw [Option.some.inj h]))
    · rw [List.lookup_cons, beq_eq_false_iff_ne.2 hk] at h
      exact List.mem_cons_of_mem _ (ih h)

/-- What refuses a byte goes nowhere. -/
theorem advances_refuseOp (error : Address → UInt8 → Error) (b : UInt8) :
    Advances b (refuseOp error) := fun c l =>
  (Moves.sat (stays_runningCode (E := c.env) c) l).andThen fun code l₁ ⟨_, hl₁⟩ => by
    simp only [bind_run, get_run, Outcome.ok_andThen]
    refine ((moves_ofOption (R := Stays c.env) _ code.toList[l₁.pc]? l₁).imp (fun _ _ h => h)
      (fun _ _ h => Trans.trans hl₁ h) fun _ h => h).andThen fun op l₂ hl₂ => ?_
    exact (Trans.trans hl₁ hl₂ : Stays c.env l l₂)

/-- **Every opcode goes on as its byte says.** -/
theorem entryOk_tableOf [Platform] (isEof : Bool) (b : UInt8) : EntryOk (b, tableOf isEof b) := by
  have hlegacy : EntryOk (b, opcodeOf b) := by
    unfold opcodeOf
    cases h : OPCODES.lookup b with
    | some o => exact entryOk_opcodes _ (lookup_mem h)
    | none => exact advances_refuseOp _ b
  cases isEof with
  | false => exact hlegacy
  | true =>
    show EntryOk (b, eofOpcodeOf b)
    unfold eofOpcodeOf
    cases h : EOF_OPCODES.lookup b with
    | some o => exact entryOk_eof _ (lookup_mem h)
    | none => exact hlegacy

end

end NeonEvm
