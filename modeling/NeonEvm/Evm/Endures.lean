import NeonEvm.Evm.Advance
import NeonEvm.Lib.Survive

/-!
# Evm/Endures — the opcodes of a frame return or fail

    code section there · reads answered · CALLF of a function that is there   →   no abort

A legacy opcode reads its immediate behind a check of the length, and an EOF opcode takes zero for
what is cut off; what refuses a byte looks it up again, but a byte that is refused is not behind the
end.
-/

namespace NeonEvm

open Exec ExecutorState Locals

/-! ## Reads -/

/-- **The reads of a backend answer**: every account that is looked at was supplied. -/
structure AccountStorage.Answers (B : AccountStorage) : Prop where
  nonce : ∀ address, ∃ n, B.nonce address = some n
  balance : ∀ address, ∃ value, B.balance address = some value
  codeSize : ∀ address, ∃ n, B.codeSize address = some n
  codeHash : ∀ address, ∃ hash, B.codeHash address = some hash
  code : ∀ address, ∃ code, B.code address = some code
  storage : ∀ address index, ∃ value, B.storage address index = some value
  blockHash : ∀ number, ∃ hash, B.blockHash number = some hash

section

variable {B : AccountStorage} {address : Address}

theorem calm_answered {π ε σ α : Type} {p : π} {o : Option α} (h : ∃ a, o = some a) :
    Calm (ofOption p o : Exec π ε σ α) := fun _ =>
  survives_ofOption.2 (h.imp fun _ ha => ⟨ha, trivial⟩)

theorem calm_ofExcept {π ε σ α : Type} (x : Except ε α) : Calm (ofExcept x : Exec π ε σ α) := by
  cases x with
  | ok a => exact calm_pure a
  | error e => exact calm_fail e

theorem calm_gets {π ε σ α : Type} (f : σ → α) : Calm (gets f : Exec π ε σ α) := fun _ => trivial

theorem calm_pushAction (action : Action) : Calm (pushAction action) := calm_modify _

theorem calm_nonce (hB : B.Answers) : Calm (nonce B address) :=
  calm_bind (calm_answered (hB.nonce _)) fun _ => calm_bind (calm_gets _) fun _ => calm_ofExcept _

theorem calm_balance (hB : B.Answers) : Calm (balance B address) :=
  calm_bind (calm_answered (hB.balance _)) fun _ => calm_bind (calm_gets _) fun _ => calm_ofExcept _

theorem calm_transfer (hB : B.Answers) (source target : Address) (value : U256) :
    Calm (transfer B source target value) :=
  calm_ite (calm_pure _) <| calm_ite (calm_pure _) <| calm_bind (calm_balance hB) fun _ =>
    calm_bind (calm_failIf _ _) fun _ => calm_pushAction _

theorem calm_code (hB : B.Answers) : Calm (code B address) :=
  calm_bind (calm_gets _) fun actions => by
    cases Overlay.code address actions with
    | some code => exact calm_pure code
    | none => exact calm_answered (hB.code _)

theorem calm_codeSize (hB : B.Answers) : Calm (codeSize B address) :=
  calm_ite (calm_pure _) <| calm_bind (calm_gets _) fun actions => by
    cases Overlay.code address actions with
    | some code => exact calm_pure _
    | none => exact calm_answered (hB.codeSize _)

theorem calm_codeHash [Platform] (hB : B.Answers) : Calm (codeHash B address) :=
  calm_bind (calm_gets _) fun actions => by
    cases Overlay.code address actions with
    | some code => exact calm_pure _
    | none => exact calm_answered (hB.codeHash _)

theorem calm_storage (hB : B.Answers) (index : U256) : Calm (storage B address index) :=
  calm_bind (calm_gets _) fun actions => by
    cases Overlay.storage address index actions with
    | some value => exact calm_pure value
    | none => exact calm_answered (hB.storage _ _)

theorem calm_blockHash (hB : B.Answers) (number : U256) : Calm (blockHash B number) :=
  calm_ite (calm_pure _) <| calm_bind (calm_gets _) fun _ =>
    calm_ite (calm_pure _) (calm_answered (hB.blockHash _))

end

/-! ## The locals of a frame -/

section

variable {α : Type} {c : Scope}

theorem calm_get {π ε σ : Type} : Calm (get : Exec π ε σ σ) := fun _ => trivial

theorem calm_onStack (f : Stack → Except Error (α × Stack)) : Calm (onStack f) := fun l => by
  unfold onStack
  cases f l.stack with
  | ok r => trivial
  | error e => trivial

theorem calm_onMemory (f : Memory → Memory × Except Error α) : Calm (onMemory f) := fun l => by
  unfold onMemory
  rcases f l.memory with ⟨m, _ | _⟩
  · trivial
  · trivial

theorem calm_popWord : Calm popWord := calm_onStack _

theorem calm_pushWord (w : U256) : Calm (pushWord w) := calm_onStack _

theorem calm_popUsize : Calm popUsize := calm_bind calm_popWord fun w => calm_lift fun _ => by
  unfold tryUsize
  cases w.toUsize? with
  | some n => trivial
  | none => trivial

theorem calm_popAddress : Calm popAddress := calm_bind calm_popWord fun _ => calm_pure _

theorem calm_readBuffer (offset length : ℕ) : Calm (readBuffer offset length) :=
  calm_bind (calm_onMemory _) fun _ => calm_pure _

theorem calm_readDb {x : Db α} (hx : Calm x) : Calm (readDb c x) := fun l => by
  have hrun := hx c.db
  unfold readDb
  cases hc : x c.db with
  | ok a d => trivial
  | err e d => trivial
  | panic f => simp [hc, Outcome.Survives, Outcome.Sat] at hrun

theorem calm_popWords (ns : List ℕ) : Calm (forEach (fun _ => popWord) ns) := by
  induction ns with
  | nil => exact calm_pure _
  | cons n ns ih => exact calm_bind calm_popWord fun _ => calm_bind ih fun _ => calm_pure _

/-! ### Families -/

theorem calm_pushOp (f : Scope → Locals → U256) : Calm (pushOp f c) :=
  calm_bind calm_get fun _ => calm_bind (calm_pushWord _) fun _ => calm_pure _

theorem calm_unaryOp (f : U256 → U256) : Calm (unaryOp f c) :=
  calm_bind calm_popWord fun _ => calm_bind (calm_pushWord _) fun _ => calm_pure _

theorem calm_binaryOp (f : U256 → U256 → U256) : Calm (binaryOp f c) :=
  calm_bind calm_popWord fun _ => calm_bind calm_popWord fun _ =>
    calm_bind (calm_pushWord _) fun _ => calm_pure _

theorem calm_ternaryOp (f : U256 → U256 → U256 → U256) : Calm (ternaryOp f c) :=
  calm_bind calm_popWord fun _ => calm_bind calm_popWord fun _ =>
    calm_bind calm_popWord fun _ => calm_bind (calm_pushWord _) fun _ => calm_pure _

theorem calm_readOp {f : Scope → Db U256} (hf : Calm (f c)) : Calm (readOp f c) :=
  calm_bind (calm_readDb hf) fun _ => calm_bind (calm_pushWord _) fun _ => calm_pure _

theorem calm_copyOp (source : Scope → Bytes) : Calm (copyOp source c) :=
  calm_bind calm_popUsize fun _ => calm_bind calm_popUsize fun _ =>
    calm_bind calm_popUsize fun _ => calm_bind (calm_onMemory _) fun _ => calm_pure _

theorem calm_jumpTo (target : ℕ) : Calm (jumpTo c target) := calm_ite (calm_pure _) (calm_fail _)

/-! ### The code section -/

variable {l : Locals} {code : Buffer}

/-- The code section is there. -/
theorem survives_runningCode (hcode : getCode c.env l = .ok code) {Q : Buffer → Locals → Prop} :
    (runningCode c l).Survives Q ↔ Q code l := by
  unfold runningCode
  rw [hcode]
  exact Iff.rfl

/-- A pop stays in the code section. -/
theorem survives_popWord_bind (hcode : getCode c.env l = .ok code) {f : U256 → LocalM α}
    (hf : ∀ w l', getCode c.env l' = .ok code → (f w l').Survives fun _ _ => True) :
    ((popWord >>= f) l).Survives fun _ _ => True := by
  refine survives_bind.2 ?_
  unfold popWord onStack
  cases l.stack.pop with
  | ok r => exact hf _ _ hcode
  | error e => trivial

theorem survives_rjump (hcode : getCode c.env l = .ok code) :
    (opcodeRjump c l).Survives fun _ _ => True :=
  survives_bind.2 ((survives_runningCode hcode).2 (survives_bind.2 trivial))

theorem survives_rjumpi (hcode : getCode c.env l = .ok code) :
    (opcodeRjumpi c l).Survives fun _ _ => True :=
  survives_popWord_bind hcode fun _ l' hcode' => by
    split
    · exact survives_bind.2 trivial
    · exact survives_rjump hcode'

theorem survives_rjumpv (hcode : getCode c.env l = .ok code) :
    (opcodeRjumpv c l).Survives fun _ _ => True :=
  survives_popWord_bind hcode fun _ l' hcode' => survives_bind.2 <|
    (survives_runningCode hcode').2 <| survives_bind.2 (calm_ite (calm_pure _) (calm_pure _) l')

theorem survives_pushImmediate (hcode : getCode c.env l = .ok code) (n : ℕ) (last : Locals → ℕ) :
    ((get >>= fun l => pushImmediate n (last l) c : LocalM LocalAction) l).Survives
      fun _ _ => True :=
  survives_bind.2 <| survives_bind.2 <| (survives_runningCode hcode).2 <|
    calm_bind calm_get (fun _ => calm_bind (calm_failIf _ _) fun _ =>
      calm_bind (calm_pushWord _) fun _ => calm_pure _) l

end

/-! ## The table -/

/-- The function that `CALLF` at the program counter names is missing. -/
def Evm.callsMissing (env : CallEnv) (l : Locals) : Bool :=
  match env.container, getCode env l with
  | some container, .ok code => container.types.length ≤ code.getU16OrDefault (l.pc + 1)
  | _, _ => false

/-- **An opcode that ends**: over its code section and a backend that answers, it returns or fails. -/
def Endures (b : UInt8) (op : LocalOp) : Prop := ∀ c l code, c.B.Answers → getCode c.env l = .ok code →
  code.getOrDefault l.pc = b → (b = opcode.CALLF → Evm.callsMissing c.env l = false) →
    (op c l).Survives fun _ _ => True

/-- An entry of the table ends. -/
def EntryEndures : UInt8 × Opcode → Prop
  | (b, .loc op) => Endures b op
  | (_, .sys _) => True

section

variable {b : UInt8} {op : LocalOp}

theorem endures_of_calm (h : ∀ c : Scope, c.B.Answers → Calm (op c)) : Endures b op :=
  fun c l _ hB _ _ _ => h c hB l

/-- **What refuses a byte finds it**: behind the end of the code there are only zeros. -/
theorem survives_refuseOp {c : Scope} {l : Locals} {code : Buffer} (error : Address → UInt8 → Error)
    (hb : b ≠ 0) (hcode : getCode c.env l = .ok code) (hbyte : code.getOrDefault l.pc = b) :
    (refuseOp error c l).Survives fun _ _ => True := by
  refine survives_bind.2 ?_
  unfold runningCode
  rw [hcode]
  refine survives_bind.2 (survives_bind.2 (survives_ofOption.2 ?_))
  have hpc : l.pc < code.toList.length := by
    by_contra hle
    exact hb (hbyte ▸ Buffer.getOrDefault_of_len_le (not_lt.1 hle))
  exact ⟨_, List.getElem?_eq_getElem hpc, trivial⟩

theorem endures_refuseOp (error : Address → UInt8 → Error) (hb : b ≠ 0) :
    Endures b (refuseOp error) := fun _ _ _ _ hcode hbyte _ =>
  survives_refuseOp error hb hcode hbyte

/-- **`CALLF`** of a function that is there. -/
theorem endures_callf : Endures opcode.CALLF opcodeCallf := fun c l code _ hcode _ hcalls => by
  have hcalls := hcalls rfl
  refine survives_bind.2 ?_
  unfold runningCode
  rw [hcode]
  refine survives_bind.2 (survives_get.2 ?_)
  unfold Evm.callsMissing at hcalls
  rw [hcode] at hcalls
  cases hc : c.env.container with
  | none => trivial
  | some container =>
    rw [hc] at hcalls
    have hidx : code.getU16OrDefault (l.pc + 1) < container.types.length :=
      not_le.1 (decide_eq_false_iff_not.1 hcalls)
    refine survives_bind.2 (survives_ofOption.2 ⟨_, List.getElem?_eq_getElem hidx, ?_⟩)
    exact survives_bind.2 (survives_failIf.2 fun _ => trivial)

theorem entryEndures_arithmetic : ∀ e ∈ arithmeticTable, EntryEndures e := by
  have binary {b : UInt8} (f : U256 → U256 → U256) : EntryEndures (b, .loc (binaryOp f)) :=
    endures_of_calm fun _ _ => calm_binaryOp f
  have ternary {b : UInt8} (f : U256 → U256 → U256 → U256) :
      EntryEndures (b, .loc (ternaryOp f)) := endures_of_calm fun _ _ => calm_ternaryOp f
  simp only [arithmeticTable, List.forall_mem_cons, List.not_mem_nil, false_imp_iff, implies_true,
    and_true]
  exact ⟨trivial, binary _, binary _, binary _, binary _, binary _, binary _, binary _, ternary _,
    ternary _, binary _, binary _⟩

theorem entryEndures_bits [Platform] : ∀ e ∈ bitTable, EntryEndures e := by
  have unary {b : UInt8} (f : U256 → U256) : EntryEndures (b, .loc (unaryOp f)) :=
    endures_of_calm fun _ _ => calm_unaryOp f
  have binary {b : UInt8} (f : U256 → U256 → U256) : EntryEndures (b, .loc (binaryOp f)) :=
    endures_of_calm fun _ _ => calm_binaryOp f
  have sha3 {b : UInt8} : EntryEndures (b, .loc opcodeSha3) := endures_of_calm fun _ _ =>
    calm_bind calm_popUsize fun _ => calm_bind calm_popUsize fun _ =>
      calm_bind (calm_onMemory _) fun _ => calm_bind (calm_pushWord _) fun _ => calm_pure _
  simp only [bitTable, List.forall_mem_cons, List.not_mem_nil, false_imp_iff, implies_true,
    and_true]
  exact ⟨binary _, binary _, binary _, binary _, binary _, unary _, binary _, binary _, binary _,
    unary _, binary _, binary _, binary _, binary _, sha3⟩

theorem entryEndures_environment [Platform] : ∀ e ∈ environmentTable, EntryEndures e := by
  have push {b : UInt8} (f : Scope → Locals → U256) : EntryEndures (b, .loc (pushOp f)) :=
    endures_of_calm fun _ _ => calm_pushOp f
  have copy {b : UInt8} (source : Scope → Bytes) : EntryEndures (b, .loc (copyOp source)) :=
    endures_of_calm fun _ _ => calm_copyOp source
  have load {b : UInt8} : EntryEndures (b, .loc opcodeCalldataload) := endures_of_calm fun _ _ =>
    calm_bind calm_popUsize fun _ => calm_bind (calm_pushWord _) fun _ => calm_pure _
  have balance {b : UInt8} : EntryEndures (b, .loc opcodeBalance) := endures_of_calm fun _ hB =>
    calm_bind calm_popAddress fun _ => calm_bind (calm_readDb (calm_balance hB)) fun _ =>
      calm_bind (calm_pushWord _) fun _ => calm_pure _
  have size {b : UInt8} : EntryEndures (b, .loc opcodeExtcodesize) := endures_of_calm fun _ hB =>
    calm_bind calm_popAddress fun _ => calm_bind (calm_readDb (calm_codeSize hB)) fun _ =>
      calm_bind (calm_pushWord _) fun _ => calm_pure _
  have hash {b : UInt8} : EntryEndures (b, .loc opcodeExtcodehash) := endures_of_calm fun _ hB =>
    calm_bind calm_popAddress fun _ => calm_bind (calm_readDb (calm_codeHash hB)) fun _ =>
      calm_bind (calm_pushWord _) fun _ => calm_pure _
  have extcode {b : UInt8} : EntryEndures (b, .loc opcodeExtcodecopy) :=
    endures_of_calm fun _ hB => calm_bind calm_popAddress fun _ =>
      calm_bind calm_popUsize fun _ => calm_bind calm_popUsize fun _ =>
      calm_bind calm_popUsize fun _ => calm_bind (calm_readDb (calm_code hB)) fun _ =>
      calm_bind (calm_onMemory _) fun _ => calm_pure _
  have returndata {b : UInt8} : EntryEndures (b, .loc opcodeReturndatacopy) :=
    endures_of_calm fun _ _ => calm_bind calm_popUsize fun _ =>
      calm_bind calm_popUsize fun _ => calm_bind calm_popUsize fun _ =>
      calm_bind calm_get fun _ => calm_bind (calm_failIf _ _) fun _ =>
      calm_bind (calm_onMemory _) fun _ => calm_pure _
  simp only [environmentTable, List.forall_mem_cons, List.not_mem_nil, false_imp_iff, implies_true,
    and_true]
  exact ⟨push _, balance, push _, push _, push _, load, push _, copy _, push _, copy _, push _, size,
    extcode, push _, returndata, hash⟩

theorem entryEndures_block : ∀ e ∈ blockTable, EntryEndures e := by
  have push {b : UInt8} (f : Scope → Locals → U256) : EntryEndures (b, .loc (pushOp f)) :=
    endures_of_calm fun _ _ => calm_pushOp f
  have read {b : UInt8} {f : Scope → Db U256} (hf : ∀ c : Scope, c.B.Answers → Calm (f c)) :
      EntryEndures (b, .loc (readOp f)) := endures_of_calm fun c hB => calm_readOp (hf c hB)
  have blockhash {b : UInt8} : EntryEndures (b, .loc opcodeBlockhash) :=
    endures_of_calm fun _ hB => calm_bind calm_popWord fun _ =>
      calm_bind (calm_readDb (calm_blockHash hB _)) fun _ =>
      calm_bind (calm_pushWord _) fun _ => calm_pure _
  simp only [blockTable, List.forall_mem_cons, List.not_mem_nil, false_imp_iff, implies_true,
    and_true]
  exact ⟨blockhash, push _, read fun _ _ => calm_gets _, read fun _ _ => calm_gets _, push _, push _,
    push _, read fun _ hB => calm_balance hB, push _⟩

theorem entryEndures_flow : ∀ e ∈ flowTable, EntryEndures e := by
  have push {b : UInt8} (f : Scope → Locals → U256) : EntryEndures (b, .loc (pushOp f)) :=
    endures_of_calm fun _ _ => calm_pushOp f
  have pop {b : UInt8} : EntryEndures (b, .loc opcodePop) := endures_of_calm fun _ _ =>
    calm_bind calm_popWord fun _ => calm_pure _
  have load {b : UInt8} : EntryEndures (b, .loc opcodeMload) := endures_of_calm fun _ _ =>
    calm_bind calm_popUsize fun _ => calm_bind (calm_onMemory _) fun _ =>
      calm_bind (calm_pushWord _) fun _ => calm_pure _
  have write (f : ℕ → U256 → Memory → Memory × Except Error Unit) :
      Calm (do
        let offset ← popUsize
        let value ← popWord
        onMemory (f offset value)
        pure LocalAction.continue) :=
    calm_bind calm_popUsize fun _ => calm_bind calm_popWord fun _ =>
      calm_bind (calm_onMemory _) fun _ => calm_pure _
  have store {b : UInt8} : EntryEndures (b, .loc opcodeMstore) := endures_of_calm fun _ _ =>
    write fun offset value m => m.write32 offset value
  have store8 {b : UInt8} : EntryEndures (b, .loc opcodeMstore8) := endures_of_calm fun _ _ =>
    write fun offset value m => m.writeByte offset (UInt8.ofNat value.toNat)
  have jump {b : UInt8} : EntryEndures (b, .loc opcodeJump) := endures_of_calm fun _ _ =>
    calm_bind calm_popUsize fun _ => calm_jumpTo _
  have jumpi {b : UInt8} : EntryEndures (b, .loc opcodeJumpi) := endures_of_calm fun _ _ =>
    calm_bind calm_popUsize fun _ => calm_bind calm_popWord fun _ =>
      calm_ite (calm_pure _) (calm_jumpTo _)
  have immediate {b : UInt8} (n : ℕ) (last : Locals → ℕ) :
      EntryEndures (b, .loc fun c => get >>= fun l => pushImmediate n (last l) c) :=
    fun _ _ _ _ hcode _ _ => survives_pushImmediate hcode n last
  simp only [flowTable, List.forall_mem_cons, List.not_mem_nil, false_imp_iff, implies_true,
    and_true]
  exact ⟨pop, load, store, store8, trivial, trivial, jump, jumpi, push _, push _, push _,
    endures_of_calm fun _ _ => calm_pure _, push _, immediate 1 fun l => l.pc + 1,
    immediate 32 fun l => l.pc + 1 + 32⟩

theorem entryEndures_system : ∀ e ∈ systemTable, EntryEndures e := by
  simp only [systemTable, List.forall_mem_cons, List.not_mem_nil, false_imp_iff, implies_true,
    and_true]
  exact ⟨trivial, trivial, trivial, trivial, trivial, trivial, trivial, trivial,
    endures_refuseOp _ (by decide), trivial⟩

theorem entryEndures_family : ∀ e ∈ familyTable, EntryEndures e := by
  simp only [familyTable, List.mem_append, List.mem_map, List.mem_range]
  rintro e (((⟨n, hn, rfl⟩ | ⟨n, hn, rfl⟩) | ⟨n, hn, rfl⟩) | ⟨n, hn, rfl⟩)
  · exact fun _ _ _ _ hcode _ _ => survives_pushImmediate hcode (n + 2) fun l => l.pc + 1 + (n + 2)
  · exact endures_of_calm fun _ _ => calm_bind (calm_onStack _) fun _ => calm_pure _
  · exact endures_of_calm fun _ _ => calm_bind (calm_onStack _) fun _ => calm_pure _
  · exact endures_of_calm fun _ _ => calm_bind (calm_failIf _ _) fun _ =>
      calm_bind calm_popUsize fun _ => calm_bind calm_popUsize fun _ =>
      calm_bind (calm_onMemory _) fun _ => calm_bind (calm_popWords _) fun _ => calm_pure _

theorem entryEndures_eof : ∀ e ∈ EOF_OPCODES, EntryEndures e := by
  have deprecated {b : UInt8} (hb : b ≠ 0) : EntryEndures (b, .loc opcodeDeprecated) :=
    endures_refuseOp _ hb
  have rjump {b : UInt8} : EntryEndures (b, .loc opcodeRjump) :=
    fun _ _ _ _ hcode _ _ => survives_rjump hcode
  have rjumpi {b : UInt8} : EntryEndures (b, .loc opcodeRjumpi) :=
    fun _ _ _ _ hcode _ _ => survives_rjumpi hcode
  have rjumpv {b : UInt8} : EntryEndures (b, .loc opcodeRjumpv) :=
    fun _ _ _ _ hcode _ _ => survives_rjumpv hcode
  simp only [EOF_OPCODES, List.forall_mem_cons, List.not_mem_nil, false_imp_iff, implies_true,
    and_true]
  exact ⟨rjump, rjumpi, rjumpv, endures_callf, trivial, deprecated (by decide),
    deprecated (by decide), deprecated (by decide), deprecated (by decide), deprecated (by decide)⟩

/-- **Every opcode of a frame ends.** -/
theorem entryEndures_tableOf [Platform] (isEof : Bool) (b : UInt8) :
    EntryEndures (b, tableOf isEof b) := by
  have hlegacy : EntryEndures (b, opcodeOf b) := by
    unfold opcodeOf
    cases h : OPCODES.lookup b with
    | some o =>
      have hall : ∀ e ∈ OPCODES, EntryEndures e := by
        simp only [OPCODES, List.forall_mem_append]
        exact ⟨⟨⟨⟨⟨⟨entryEndures_arithmetic, entryEndures_bits⟩, entryEndures_environment⟩,
          entryEndures_block⟩, entryEndures_flow⟩, entryEndures_system⟩, entryEndures_family⟩
      exact hall _ (lookup_mem h)
    | none =>
      refine endures_refuseOp _ ?_
      rintro rfl
      cases h
  cases isEof with
  | false => exact hlegacy
  | true =>
    show EntryEndures (b, eofOpcodeOf b)
    unfold eofOpcodeOf
    cases h : EOF_OPCODES.lookup b with
    | some o => exact entryEndures_eof _ (lookup_mem h)
    | none => exact hlegacy

/-- **An opcode of a frame ends** over its code section, if the function that it calls is there. -/
theorem survives_tableOf [Platform] {isEof : Bool} {c : Scope} {l : Locals} {code : Buffer}
    (hop : tableOf isEof b = .loc op) (hB : c.B.Answers) (hcode : getCode c.env l = .ok code)
    (hbyte : code.getOrDefault l.pc = b)
    (hcalls : b = opcode.CALLF → isEof = true → Evm.callsMissing c.env l = false) :
    (op c l).Survives fun _ _ => True := by
  by_cases hlegacy : b = opcode.CALLF ∧ isEof = false
  · obtain ⟨rfl, rfl⟩ := hlegacy
    obtain rfl : opcodeUnknown = op := Opcode.loc.inj hop
    exact survives_refuseOp _ (by decide) hcode hbyte
  · have hends : EntryEndures (b, tableOf isEof b) := entryEndures_tableOf isEof b
    rw [hop] at hends
    refine hends c l code hB hcode hbyte fun hb => hcalls hb ?_
    exact Bool.eq_true_of_not_eq_false fun hisEof => hlegacy ⟨hb, hisEof⟩

end

end NeonEvm
