import NeonEvm.Evm.Hop
import NeonEvm.Lib.Tiling

/-!
# Evm/Jumpdest — where the jumps of legacy code land

    60 5B  5B      PUSH1 0x5B, JUMPDEST: the byte at 1 is data, the one at 2 an opcode
    └──┘   │
     0     2       the instructions, read from position 0

`JUMP` looks at the byte at its target, and not at the instructions before it.
-/

namespace NeonEvm

open Exec ExecutorState Chain Locals Tiling

/-! ## Instructions -/

/-- The length of the legacy instruction at a position; past the end of the code there are only
`STOP`s. -/
def legacyLen (code : Buffer) (p : ℕ) : ℕ := 1 + operandLen (code.getOrDefault p)

/-- **A legacy instruction starts here**, reading the code from position 0. -/
def InstructionStart (code : Buffer) (p : ℕ) : Prop := Start (legacyLen code) p

/-- **A jump destination**: an instruction starts here, and it is `JUMPDEST`. -/
def JumpDestination (code : Buffer) (p : ℕ) : Prop :=
  InstructionStart code p ∧ code.toList[p]? = some JUMPDEST

/-- A frame that runs legacy code. -/
def CallEnv.Legacy (env : CallEnv) : Prop := env.container = none

/-! ## Sessions -/

/-- The running frame is legacy code, and its next opcode a `JUMP`, or a `JUMPI` that is taken, to the
position `target`. -/
structure Session.JumpsTo (x : Session) (s : Evm) (target : ℕ) : Prop where
  running : x.progress = .running s
  legacy : s.env.Legacy
  jump : ∃ b, s.byteAt = some b ∧ jumpTarget b s.frame.locals = some target

/-- **Every jump to a jump destination succeeds, and no other does**: the step after it is at the
target. -/
def Session.JumpsRight [Platform] (B : AccountStorage) (x : Session) : Prop :=
  ∀ s target, x.JumpsTo s target →
    ((∃ t, (x.after B .next).progress = .running t ∧ s.Proceeds target t) ↔
      JumpDestination s.env.executionCode target)

/-- **The legacy frames stand at instructions**, or past the end of their code. -/
def Session.InCode (x : Session) : Prop :=
  ∀ s, x.progress = .running s → ∀ f ∈ s.frame :: s.parents, f.env.Legacy →
    InstructionStart f.env.executionCode f.locals.pc ∨ f.env.executionCode.len ≤ f.locals.pc

/-- **The next jump goes astray**: under the table of legacy code to a byte of data that reads
`JUMPDEST`, under that of EOF code to any jump destination. -/
def Session.JumpsAstray (x : Session) : Prop :=
  ∃ s target, x.JumpsTo s target ∧
    if x.isEof then JumpDestination s.env.executionCode target
    else s.env.executionCode.toList[target]? = some JUMPDEST ∧
      ¬InstructionStart s.env.executionCode target

/-- The next opcode is a relative jump of EOF code, and the running frame is legacy code. -/
def Session.JumpsRelative (x : Session) : Prop :=
  x.isEof = true ∧ ∃ s, x.progress = .running s ∧ s.env.Legacy ∧
    ∃ b, s.byteAt = some b ∧ (b = opcode.RJUMP ∨ b = opcode.RJUMPI ∨ b = opcode.RJUMPV)

/-- The steps under which legacy code jumps to instructions. -/
def Session.Straight : Session.Kind → Session → Prop := fun k x =>
  k = .next → ¬x.JumpsAstray ∧ ¬x.JumpsRelative

section

variable [Platform] {B : AccountStorage} {x y : Session} {s t : Evm} {b : UInt8} {op : LocalOp}
  {l : Locals} {target : ℕ}

/-! ## Opcodes on locals -/

/-- The opcode of the next byte runs. -/
theorem Evm.runOpcode_byteAt (isEof : Bool) (hb : s.byteAt = some b) :
    ∃ tracer, Evm.runOpcode B isEof s = (tableOf isEof b).run B { s with tracer := tracer } := by
  have hopcode : s.opcodeAt isEof = some (tableOf isEof b) := by
    unfold Evm.byteAt at hb
    unfold Evm.opcodeAt
    cases hcode : getCode s.env s.frame.locals with
    | ok code =>
      rw [hcode] at hb
      obtain rfl := Option.some.inj hb
      rfl
    | error f =>
      rw [hcode] at hb
      cases hb
  rcases Evm.runOpcode_run B isEof s with ⟨hnone, -⟩ | ⟨op, tracer, hsome, hrun⟩
  · rw [hopcode] at hnone
    cases hnone
  · obtain rfl := Option.some.inj (hopcode.symm.trans hsome)
    exact ⟨tracer, hrun⟩

omit [Platform] in
/-- An opcode on locals, in its machine. -/
theorem onLocals_toOpAction (x : LocalM LocalAction) (s : Evm) :
    Evm.onLocals (do pure (← x).toOpAction) s = match x s.frame.locals with
      | .ok a l => .ok a.toOpAction (s.setLocals l)
      | .err e l => .err e (s.setLocals l)
      | .panic f => .panic (.fault f) := by
  unfold Evm.onLocals zoom
  rw [bind_run]
  cases x s.frame.locals <;> rfl

variable (hs : x.progress = .running s) (hb : s.byteAt = some b)
  (hop : tableOf x.isEof b = .loc op)

include hs hb hop

/-- **What a step makes of an opcode on locals.** -/
theorem Session.after_loc : ∃ tracer,
    (∀ a l, op ⟨B, s.env, s.backend.toDatabase⟩ s.frame.locals = .ok a l →
      (x.after B .next).progress =
        Evm.conclude a.toOpAction (({ s with tracer := tracer } : Evm).setLocals l)) ∧
    (∀ e l, op ⟨B, s.env, s.backend.toDatabase⟩ s.frame.locals = .err e l →
      (x.after B .next).progress = .failed e (({ s with tracer := tracer } : Evm).setLocals l)) ∧
    ∀ f, op ⟨B, s.env, s.backend.toDatabase⟩ s.frame.locals = .panic f →
      (x.after B .next).progress = .panicked (.fault f) := by
  obtain ⟨tracer, hrun⟩ := Evm.runOpcode_byteAt (B := B) x.isEof hb
  have hx := onLocals_toOpAction (op ⟨B, s.env, s.backend.toDatabase⟩) { s with tracer := tracer }
  rw [hop] at hrun
  have hrun := hrun.trans hx
  have hafter : (x.after B .next).progress = micro B x.isEof (.running s) := by
    rw [← hs]
    rfl
  rw [hafter]
  refine ⟨tracer, fun a l h => ?_, fun e l h => ?_, fun f h => ?_⟩
  · exact micro_of_ok (hrun.trans (by rw [h]))
  · exact micro_of_err (hrun.trans (by rw [h]))
  · exact micro_of_panic (hrun.trans (by rw [h]))

/-- **An opcode on locals that returns** in its frame proceeds as its action says. -/
theorem Session.proceeds_of_ok {a : LocalAction}
    (h : op ⟨B, s.env, s.backend.toDatabase⟩ s.frame.locals = .ok a l)
    (hl : Stays s.env s.frame.locals l) :
    ∃ t, (x.after B .next).progress = .running t ∧ s.Proceeds (a.position s.frame.locals) t := by
  obtain ⟨tracer, hok, -⟩ := Session.after_loc (B := B) hs hb hop
  have hafter := hok a l h
  obtain ⟨t, ht⟩ := Evm.conclude_toOpAction a (({ s with tracer := tracer } : Evm).setLocals l)
  have hhome : AtHome s (({ s with tracer := tracer } : Evm).setLocals l) := ⟨rfl, rfl, hl⟩
  refine ⟨t, hafter.trans ht, hhome.proceeds ?_⟩
  rw [ht]
  rfl

/-- **An opcode on locals that does not return** stops the running. -/
theorem Session.not_running_of_not_ok
    (h : ∀ a l, op ⟨B, s.env, s.backend.toDatabase⟩ s.frame.locals ≠ .ok a l) :
    (x.after B .next).progress ≠ .running t := by
  obtain ⟨tracer, -, herr, hpanic⟩ := Session.after_loc (B := B) hs hb hop
  cases ho : op ⟨B, s.env, s.backend.toDatabase⟩ s.frame.locals with
  | ok a l => exact absurd ho (h a l)
  | err e l =>
    rw [herr e l ho]
    exact Progress.noConfusion
  | panic f =>
    rw [hpanic f ho]
    exact Progress.noConfusion

omit hs hb hop

/-! ## Jumps -/

omit [Platform] in
/-- A refused opcode does not return. -/
theorem refuseOp_ne_ok {error : Address → UInt8 → Error} {c : Scope} {l l' : Locals}
    {a : LocalAction} : refuseOp error c l ≠ .ok a l' := by
  intro h
  obtain ⟨_, _, -, h⟩ := bind_eq_ok.1 h
  obtain ⟨_, _, -, h⟩ := bind_eq_ok.1 h
  obtain ⟨_, _, -, h⟩ := bind_eq_ok.1 h
  cases h

omit [Platform] in
/-- A jump that is taken is `JUMP`, or `JUMPI` over a word that is not zero. -/
theorem jumpTarget_eq_some (h : jumpTarget b l = some target) : ∃ w ws, l.stack.words = w :: ws ∧
    w.toUsize? = some target ∧ (b = JUMP ∨ b = JUMPI ∧ ∃ c cs, ws = c :: cs ∧ c ≠ 0) := by
  unfold jumpTarget at h
  rcases hl : l.stack.words with _ | ⟨w, ws⟩
  · simp [hl] at h
  · rw [hl] at h
    dsimp only at h
    split_ifs at h with hb
    refine ⟨w, ws, rfl, h, hb.imp_right fun ⟨hb, hc⟩ => ⟨hb, ?_⟩⟩
    rcases ws with _ | ⟨c, cs⟩
    · simp at hc
    · exact ⟨c, cs, rfl, by simpa using hc⟩

omit [Platform] in
theorem popWord_eq {w : U256} {ws : List U256} (hl : l.stack.words = w :: ws) :
    ∃ l', popWord l = .ok w l' ∧ l'.stack.words = ws := by
  unfold popWord onStack Stack.pop
  rcases hs : l.stack with ⟨words, bound⟩
  rw [hs] at hl
  obtain rfl : words = w :: ws := hl
  exact ⟨_, rfl, rfl⟩

omit [Platform] in
/-- The word on top of the stack is popped, if it is a position. -/
theorem popUsize_eq {w : U256} {ws : List U256} (hl : l.stack.words = w :: ws)
    (hw : w.toUsize? = some target) :
    ∃ l', popUsize l = .ok target l' ∧ l'.stack.words = ws := by
  obtain ⟨l', hpop, hl'⟩ := popWord_eq hl
  refine ⟨l', ?_, hl'⟩
  rw [popUsize, bind_run, hpop]
  simp [lift, zoom, tryUsize, hw]

/-- **The jumps of legacy code** look at the byte at their target, and at nothing else. -/
theorem jump_run (h : jumpTarget b l = some target) : ∃ op, tableOf false b = .loc op ∧
    ∀ c, ∃ l', op c l = jumpTo c target l' := by
  obtain ⟨w, ws, hl, hw, rfl | ⟨rfl, condition, cs, rfl, hc⟩⟩ := jumpTarget_eq_some h
  · refine ⟨opcodeJump, rfl, fun c => ?_⟩
    obtain ⟨l', hpop, -⟩ := popUsize_eq hl hw
    exact ⟨l', by rw [opcodeJump, bind_run, hpop]; rfl⟩
  · refine ⟨opcodeJumpi, rfl, fun c => ?_⟩
    obtain ⟨l₁, hpop, hl₁⟩ := popUsize_eq hl hw
    obtain ⟨l₂, hpop', -⟩ := popWord_eq hl₁
    refine ⟨l₂, ?_⟩
    rw [opcodeJumpi, bind_run, hpop, Outcome.ok_andThen, bind_run, hpop', Outcome.ok_andThen,
      if_neg hc]

/-- **Under the table of legacy code** a jump succeeds if and only if the byte at its target is
`JUMPDEST`. -/
theorem Session.JumpsTo.legacy_table (h : x.JumpsTo s target) (hx : x.isEof = false) :
    (∃ t, (x.after B .next).progress = .running t ∧ s.Proceeds target t) ↔
      s.env.executionCode.toList[target]? = some JUMPDEST := by
  obtain ⟨hs, -, b, hb, hjump⟩ := h
  obtain ⟨op, hop, hrun⟩ := jump_run hjump
  obtain ⟨l', hl'⟩ := hrun ⟨B, s.env, s.backend.toDatabase⟩
  have hentry : Advances b op := by
    have := entryOk_tableOf false b
    rwa [hop] at this
  have hstays := hentry ⟨B, s.env, s.backend.toDatabase⟩ s.frame.locals
  rw [← hx] at hop
  unfold jumpTo at hl'
  by_cases hdest : s.env.executionCode.toList[target]? = some JUMPDEST
  · rw [if_pos hdest] at hl'
    rw [hl'] at hstays
    exact iff_of_true (Session.proceeds_of_ok (B := B) hs hb hop hl' hstays.2) hdest
  · rw [if_neg hdest] at hl'
    refine iff_of_false ?_ hdest
    rintro ⟨t, ht, -⟩
    refine Session.not_running_of_not_ok hs hb hop (fun a l h => ?_) ht
    rw [hl'] at h
    cases h

/-- **Under the table of EOF code** no jump succeeds. -/
theorem Session.JumpsTo.eof_table (h : x.JumpsTo s target) (hx : x.isEof = true) :
    (x.after B .next).progress ≠ .running t := by
  obtain ⟨hs, -, b, hb, hjump⟩ := h
  have hop : tableOf x.isEof b = .loc opcodeDeprecated := by
    obtain ⟨-, -, -, -, rfl | ⟨rfl, -⟩⟩ := jumpTarget_eq_some hjump <;> rw [hx] <;> rfl
  exact Session.not_running_of_not_ok hs hb hop fun a l => refuseOp_ne_ok

/-- **A jump goes right if and only if it does not go astray.** -/
theorem Session.jumpsRight_iff : x.JumpsRight B ↔ ¬x.JumpsAstray := by
  refine ⟨?_, fun hx s target h => ?_⟩
  · rintro hright ⟨s, target, h, hastray⟩
    have hiff := hright s target h
    split_ifs at hastray with hx
    · obtain ⟨t, ht, -⟩ := hiff.2 hastray
      exact h.eof_table hx ht
    · rw [h.legacy_table (Bool.eq_false_iff.2 hx)] at hiff
      exact hastray.2 (hiff.1 hastray.1).1
  · by_cases hisEof : x.isEof = true
    · refine iff_of_false ?_ fun hdest => hx ⟨s, target, h, by rwa [if_pos hisEof]⟩
      rintro ⟨t, ht, -⟩
      exact h.eof_table hisEof ht
    · rw [h.legacy_table (Bool.eq_false_iff.2 hisEof)]
      refine ⟨fun hdest => ⟨?_, hdest⟩, fun hdest => hdest.2⟩
      by_contra hstart
      exact hx ⟨s, target, h, by rw [if_neg hisEof]; exact ⟨hdest, hstart⟩⟩

/-! ## Runs -/

/-- What holds of the running frame: legacy code stands at an instruction, and has called no
function. -/
def StandsAtInstruction (f : Frame) : Prop := f.env.Legacy →
  InstructionStart f.env.executionCode f.locals.pc ∧ f.locals.returnStack.length ≤ 1

/-- What holds of a waiting frame: it stands at an instruction without an operand. -/
def WaitsAtInstruction (f : Frame) : Prop := f.env.Legacy →
  InstructionStart f.env.executionCode f.locals.pc ∧
    InstructionStart f.env.executionCode (f.locals.pc + 1) ∧ f.locals.returnStack.length ≤ 1

omit [Platform] in
/-- The next byte of legacy code. -/
theorem CallEnv.Legacy.byteAt (h : s.env.Legacy) :
    s.byteAt = some (s.env.executionCode.getOrDefault s.frame.locals.pc) := by
  unfold Evm.byteAt getCode
  rw [show s.env.container = none from h]

omit [Platform] in
/-- **Behind an instruction** the next one starts. -/
theorem InstructionStart.next (h : s.env.Legacy) (hb : s.byteAt = some b)
    (hs : InstructionStart s.env.executionCode s.frame.locals.pc) :
    InstructionStart s.env.executionCode (s.frame.locals.pc + 1 + operandLen b) := by
  obtain rfl := Option.some.inj (h.byteAt.symm.trans hb)
  rw [Nat.add_assoc]
  exact Start.next hs

omit [Platform] in
/-- **Opening and ending frames** keeps the legacy ones at instructions. -/
theorem instructionInvariant : FrameInvariant StandsAtInstruction WaitsAtInstruction where
  opens hl hlegacy := by
    rw [show _ = _ from hl.pc, show _ = _ from hl.returnStack hlegacy]
    exact ⟨start_zero, le_rfl⟩
  waits hs hb hlen hl hlegacy := by
    obtain ⟨hstart, hreturns⟩ := hs hlegacy
    have hnext := hstart.next hlegacy hb
    rw [hlen] at hnext
    rw [show _ = _ from hl.pc, show _ = _ from hl.returnStack hlegacy]
    exact ⟨hstart, hnext, hreturns⟩
  returns hp hl hlegacy := by
    obtain ⟨-, hnext, hreturns⟩ := hp hlegacy
    change InstructionStart _ (_ + 1) ∧ _ ≤ 1
    rw [show _ = _ from hl.pc, show _ = _ from hl.returnStack hlegacy]
    exact ⟨hnext, hreturns⟩

/-- **Going on in a frame** keeps it at instructions, if the step is straight. -/
theorem StandsAtInstruction.onward (hx : Session.Straight .next x) (hs : x.progress = .running s)
    (ht : (x.after B .next).progress = .running t) (hstands : StandsAtInstruction s.frame)
    (h : s.Onward t) : StandsAtInstruction t.frame := by
  intro hlegacy
  have henv : t.frame.env = s.frame.env := h.env
  rw [henv] at hlegacy ⊢
  obtain ⟨hastray, hrelative⟩ := hx rfl
  obtain ⟨hstart, hreturns⟩ := hstands hlegacy
  rcases h with @⟨b, a, hb, ha, hp⟩ | ⟨hmany, -⟩
  · refine ⟨?_, (show t.frame.locals.returnStack = _ from hp.locals.returnStack hlegacy) ▸ hreturns⟩
    rw [show t.frame.locals.pc = _ from hp.locals.pc]
    have hnext := hstart.next hlegacy hb
    rcases ha with hlen | hlen | ⟨htarget, hdest⟩ | hb' | hfunction
    · rwa [hlen] at hnext
    · exact hnext
    · have hjump : x.JumpsTo s _ := ⟨hs, hlegacy, _, hb, htarget⟩
      by_cases hx : x.isEof = true
      · exact absurd ht (hjump.eof_table hx)
      · by_contra hnot
        exact hastray ⟨s, _, hjump, by rw [if_neg hx]; exact ⟨hdest, hnot⟩⟩
    · by_cases hx : x.isEof = true
      · exact absurd ⟨hx, s, hs, hlegacy, _, hb, hb'⟩ hrelative
      · have hunknown : tableOf x.isEof b = .loc opcodeUnknown := by
          rw [Bool.eq_false_iff.2 hx]
          rcases hb' with rfl | rfl | rfl <;> rfl
        exact absurd ht (Session.not_running_of_not_ok hs hb hunknown fun a l => refuseOp_ne_ok)
    · exact absurd hlegacy hfunction
  · exact absurd hmany (not_lt.2 hreturns)

/-- **Straight steps keep legacy code at instructions** — and a jump goes right exactly where the
next step does not go astray. -/
theorem legacy_jumps_are_instructions {trx : Transaction} {origin : Address}
    (hstart : Session.Starts B trx origin x) (hrun : Relation.ReflTransGen
      (fun x y => ∃ B, Session.Step B Session.Straight x y) x y) :
    y.InCode ∧ ∀ B, y.JumpsRight B ↔ ¬y.JumpsAstray := by
  refine ⟨fun s hs f hf hlegacy => .inl ?_, fun B => Session.jumpsRight_iff⟩
  have h := instructionInvariant.run (fun hx => StandsAtInstruction.onward hx) hstart hrun
  rcases List.mem_cons.1 hf with rfl | hf
  · exact (h.current hs hlegacy).1
  · exact (h.parents (by rw [hs]; rfl) f hf hlegacy).1

end

/-! ## Two jumps -/

/-- A jump over nothing to a `JUMPDEST`, and `STOP`. -/
def straightCode : Bytes := [0x60, 0x03, 0x56, 0x5B, 0x00]

/-- A jump into the operand of a `PUSH1`. -/
def astrayCode : Bytes := [0x60, 0x04, 0x56, 0x60, 0x5B, 0x00]

/-- The next jump, if it is one, goes to `target` in the code under the table of legacy code. -/
def Session.jumpsOnlyTo (code : Bytes) (target : ℕ) (x : Session) : Bool :=
  !x.isEof && match x.progress with
    | .running s => s.env.executionCode.toList = code &&
      s.byteAt.any fun b => (jumpTarget b s.frame.locals).all (· = target)
    | _ => true

theorem Session.straight_of_jumpsOnlyTo {code : Bytes} {target : ℕ} {x : Session}
    (h : x.jumpsOnlyTo code target = true)
    (hstart : ∀ b : Buffer, b.toList = code → InstructionStart b target) :
    Session.Straight .next x := by
  unfold jumpsOnlyTo at h
  rw [Bool.and_eq_true, Bool.not_eq_true'] at h
  obtain ⟨hx, h⟩ := h
  refine fun _ => ⟨?_, fun hrel => absurd (hx.symm.trans hrel.1) Bool.false_ne_true⟩
  rintro ⟨s, t, ⟨hs, -, b, hb, hjump⟩, hastray⟩
  rw [hx, if_neg Bool.false_ne_true] at hastray
  rw [hs] at h
  simp only [hb, Option.any_some, hjump, Option.all_some, Bool.and_eq_true, decide_eq_true_eq] at h
  obtain ⟨hcode, rfl⟩ := h
  exact hastray.2 (hstart _ hcode)

/-- The next opcode is a jump to `target` in legacy code, under its table. -/
def Session.isJump (code : Bytes) (target : ℕ) (x : Session) : Bool :=
  !x.isEof && match x.progress with
    | .running s => s.env.container.isNone && s.env.executionCode.toList = code &&
      s.byteAt.any fun b => jumpTarget b s.frame.locals = some target
    | _ => false

theorem Session.jumpsTo_of_isJump {code : Bytes} {target : ℕ} {x : Session}
    (h : x.isJump code target = true) : x.isEof = false ∧
      ∃ s, x.JumpsTo s target ∧ s.env.executionCode.toList = code := by
  unfold isJump at h
  rw [Bool.and_eq_true, Bool.not_eq_true'] at h
  obtain ⟨hx, h⟩ := h
  cases hs : x.progress with
  | running s =>
    simp only [hs, Bool.and_eq_true, decide_eq_true_eq, Option.any_eq_true_iff_get] at h
    obtain ⟨⟨hlegacy, hcode⟩, hsome, hjump⟩ := h
    exact ⟨hx, s, ⟨hs, Option.isNone_iff_eq_none.1 hlegacy, _, Option.some_get hsome |>.symm, hjump⟩,
      hcode⟩
  | _ => simp [hs] at h

set_option maxRecDepth 10000 in
/-- Past the jump, in two straight steps. -/
theorem legacy_jumps_are_instructions_jump : ∃ (_ : Platform) (B : AccountStorage) (x y z : Session),
    Session.Starts B (.callOf 0x100) 0x999 x ∧
      Session.Run B Session.Straight x y ∧ y.isJump straightCode 3 = true ∧
      Session.Run B Session.Straight y z ∧ z.InCode ∧ ∀ B, z.JumpsRight B ↔ ¬z.JumpsAstray := by
  let _ := Platform.bare
  let B := AccountStorage.holding fun a => if a = 0x100 then straightCode else []
  have htest : (Machine.new B (.callOf 0x100) 0x999 (ExecutorState.new B)).okAnd fun m b =>
      ((Session.enter ⟨m.frame, m.parents, b, none⟩).follow B
        (·.jumpsOnlyTo straightCode 3) 1).any fun y =>
          y.isJump straightCode 3 && y.jumpsOnlyTo straightCode 3 := by
    decide +kernel
  obtain ⟨m, b, hnew, htest⟩ := Outcome.exists_of_okAnd htest
  obtain ⟨y, hy, htest⟩ := Option.any_eq_true _ _ |>.1 htest
  rw [Bool.and_eq_true] at htest
  have straight (x : Session) (hx : x.jumpsOnlyTo straightCode 3 = true) :
      Session.Straight .next x := Session.straight_of_jumpsOnlyTo hx fun b hb => ⟨2, by
    simp [tile, legacyLen, Buffer.getOrDefault, hb, straightCode, operandLen]⟩
  have hstart : Session.Starts B (.callOf 0x100) 0x999
      (Session.enter ⟨m.frame, m.parents, b, none⟩) := ⟨m, b, none, hnew, rfl⟩
  have hrun := Session.follow_run straight hy
  have hstep : Session.Run B Session.Straight y (y.after B .next) :=
    .single ⟨.next, straight y htest.2, rfl⟩
  exact ⟨_, B, _, y, _, hstart, hrun, htest.1, hstep, legacy_jumps_are_instructions hstart
    (Relation.ReflTransGen.mono (fun _ _ h => ⟨B, h⟩) _ _ (hrun.trans hstep))⟩

set_option maxRecDepth 10000 in
/-- **A jump into data succeeds**, and the program counter is at no instruction from then on. -/
theorem jump_lands_in_data : ∃ (_ : Platform) (B : AccountStorage) (x y : Session),
    Session.Starts B (.callOf 0x100) 0x999 x ∧ Session.Run B (fun _ _ => True) x y ∧
      ¬y.JumpsRight B ∧ ¬(y.after B .next).InCode := by
  let _ := Platform.bare
  let B := AccountStorage.holding fun a => if a = 0x100 then astrayCode else []
  have htest : (Machine.new B (.callOf 0x100) 0x999 (ExecutorState.new B)).okAnd fun m b =>
      (Session.after B (Session.enter ⟨m.frame, m.parents, b, none⟩) .next).isJump astrayCode 4 := by
    decide +kernel
  obtain ⟨m, b, hnew, htest⟩ := Outcome.exists_of_okAnd htest
  refine ⟨_, B, _, _, ⟨m, b, none, hnew, rfl⟩, .single ⟨.next, trivial, rfl⟩, ?_⟩
  obtain ⟨hx, s, hjump, hcode⟩ := Session.jumpsTo_of_isJump htest
  have hdest : s.env.executionCode.toList[4]? = some JUMPDEST := by rw [hcode]; rfl
  have hnot : ¬InstructionStart s.env.executionCode 4 := by
    refine fun h => (start_iff_not_inside fun _ => Nat.add_pos_left Nat.one_pos _).1 h
      ⟨3, ⟨2, ?_⟩, by decide, ?_⟩
    · simp [tile, Buffer.getOrDefault, hcode, astrayCode, operandLen]
    · simp [Buffer.getOrDefault, hcode, astrayCode, operandLen]
  have hastray : (Session.after B (Session.enter ⟨m.frame, m.parents, b, none⟩) .next).JumpsAstray :=
    ⟨s, 4, hjump, by rw [hx, if_neg Bool.false_ne_true]; exact ⟨hdest, hnot⟩⟩
  refine ⟨fun hright => Session.jumpsRight_iff.1 hright hastray, fun hin => ?_⟩
  obtain ⟨t, ht, hp⟩ := (hjump.legacy_table (B := B) hx).2 hdest
  have henv : t.frame.env = s.env := hp.env
  have hpc : t.frame.locals.pc = 4 := hp.locals.pc
  rcases hin t ht t.frame List.mem_cons_self (henv ▸ hjump.legacy) with h | h
  · rw [henv, hpc] at h
    exact hnot h
  · rw [henv, hpc, Buffer.len, hcode] at h
    exact absurd h (by decide)

end NeonEvm
