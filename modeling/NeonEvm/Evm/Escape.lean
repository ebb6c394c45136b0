import NeonEvm.Evm.StaticCall

/-!
# Evm/Escape — where an error can escape `execute`

    opcode fails ── revert the frame ──▸ in its caller: write the return range, push the word

The handler of errors runs behind `execute`'s own `?`.  It takes the snapshot back, goes on in the
caller, and delivers: the push finds room, since the caller has popped the words of its call; the
write may be refused.
-/

namespace NeonEvm

open Exec ExecutorState

/-! ## Room on the stack -/

/-- One more word can be pushed. -/
def Stack.HasRoom (s : Stack) : Prop := s.words.length < STACK_LIMIT

/-- Every parent can take the word that its child will deliver. -/
def Evm.Roomy (s : Evm) : Prop := ∀ p ∈ s.parents, p.locals.stack.HasRoom

/-- So can the current frame. -/
def Evm.RoomyTop (s : Evm) : Prop := s.Roomy ∧ s.frame.locals.stack.HasRoom

variable {α β : Type} {B : AccountStorage} {s t : Evm}

/-- Room in the parents is kept. -/
def KeepsRoom (x : EvmM α) : Prop :=
  Triple Evm.Roomy x (fun _ => Evm.Roomy) (fun _ => Evm.Roomy) fun _ => True

/-- Room in the current frame is made, before it becomes a parent. -/
def MakesRoom (x : EvmM α) : Prop :=
  Triple Evm.Roomy x (fun _ => Evm.RoomyTop) (fun _ => Evm.Roomy) fun _ => True

/-- Room in the current frame is kept. -/
def KeepsTop (x : EvmM α) : Prop :=
  Triple Evm.RoomyTop x (fun _ => Evm.RoomyTop) (fun _ => Evm.Roomy) fun _ => True

/-- The current frame becomes a parent. -/
def Forks (x : EvmM α) : Prop :=
  Triple Evm.RoomyTop x (fun _ => Evm.Roomy) (fun _ => Evm.Roomy) fun _ => True

/-! ### Steps of the frame itself -/

theorem keepsRoom_pure (a : α) : KeepsRoom (pure a) := fun _ h => h

theorem keepsRoom_fail (e : Error) : KeepsRoom (fail e : EvmM α) := fun _ h => h

theorem keepsRoom_get : KeepsRoom get := fun _ h => h

theorem keepsRoom_emit (e : Event) : KeepsRoom (Evm.emit e) := fun _ h => h

theorem keepsRoom_failIf (b : Bool) (e : Error) : KeepsRoom (failIf b e) := by
  cases b with
  | false => exact keepsRoom_pure ()
  | true => exact keepsRoom_fail e

theorem keepsRoom_bind {x : EvmM α} {f : α → EvmM β} (hx : KeepsRoom x)
    (hf : ∀ a, KeepsRoom (f a)) : KeepsRoom (x >>= f) := Triple.bind hx hf

theorem keepsRoom_ite {c : Prop} [Decidable c] {x y : EvmM α} (hx : KeepsRoom x)
    (hy : KeepsRoom y) : KeepsRoom (if c then x else y) := by
  split
  · exact hx
  · exact hy

theorem keepsRoom_onLocals (x : LocalM α) : KeepsRoom (Evm.onLocals x) := fun s hs => by
  unfold Evm.onLocals zoom
  cases x s.frame.locals <;> first | exact hs | trivial

theorem keepsRoom_fallible (x : Fallible α) : KeepsRoom (Evm.fallible x) := fun s hs => by
  unfold Evm.fallible zoom
  cases x () <;> first | exact hs | trivial

theorem keepsRoom_db (x : Db α) : KeepsRoom (Evm.db x) := fun s hs => by
  rw [db_run]
  cases x s.backend.toDatabase <;> first | exact hs | trivial

theorem keepsRoom_takeSnapshot : KeepsRoom Evm.takeSnapshot := fun _ h => h

theorem keepsRoom_setStatic : KeepsRoom (modify Evm.setStatic) := fun _ h => h

/-- The end of a frame leaves some of its parents. -/
theorem keepsRoom_ends [Platform] {e : Ending} {x : EvmM OpAction} (hx : ∀ s, Ends B e s (x s)) :
    KeepsRoom x := fun s hs => by
  have left {d m : Chain} {p : Frame} (h : Chain.Leave B e s.chain d m p) :
      ∀ q ∈ d.parents, q.locals.stack.HasRoom := fun q hq => by
    refine hs q ?_
    have hparents : s.parents = p :: d.parents := h.work.parents.symm.trans h.parents
    rw [hparents]
    exact List.mem_cons_of_mem _ hq
  refine (hx s).imp (fun a t ht => ?_) (fun _ t ht => ?_) fun _ _ => trivial
  · rcases ht with ⟨-, m, p, hl⟩ | ⟨-, m, hx⟩
    · exact left hl
    · have hparents : t.parents = [] := hx.parents
      simp [Evm.Roomy, hparents]
  · rcases ht with hw | ⟨m, p, hl⟩
    · have hparents : t.parents = s.parents := hw.parents
      exact fun q hq => hs q (hparents ▸ hq)
    · exact left hl

/-! ### Before a child is opened -/

/-- A push where there is room. -/
theorem Locals.pushWord_eq {l : Locals} (hroom : l.stack.HasRoom) (word : U256) :
    pushWord word l = .ok () { l with stack := ⟨word :: l.stack.words, hroom⟩ } := by
  have hpush : l.stack.push word = .ok ⟨word :: l.stack.words, hroom⟩ := dif_pos hroom
  simp [pushWord, onStack, hpush, Except.map]

/-- What is popped makes room. -/
theorem Locals.popWord_run (l : Locals) : (popWord l).Sat (fun _ l' => l'.stack.HasRoom)
    (fun _ _ => True) fun _ => True := by
  unfold popWord onStack Stack.pop
  obtain ⟨words, bound⟩ := l.stack
  cases words with
  | nil => trivial
  | cons w ws => exact Nat.lt_of_succ_le bound

/-- Room on the stack of a frame is kept. -/
def Locals.KeepsRoom (l l' : Locals) : Prop := l.stack.HasRoom → l'.stack.HasRoom

instance : IsTrans Locals Locals.KeepsRoom := ⟨fun _ _ _ h h' => h' ∘ h⟩

instance : Std.Refl Locals.KeepsRoom := ⟨fun _ => id⟩

open Locals

theorem moves_popWord : Moves Locals.KeepsRoom popWord := fun l => by
  unfold popWord onStack Stack.pop
  cases hl : l.stack with
  | mk words bound =>
    cases words with
    | nil => exact id
    | cons w ws => exact fun _ => Nat.lt_of_succ_le bound

theorem moves_popUsize : Moves Locals.KeepsRoom popUsize :=
  moves_bind moves_popWord fun _ => moves_lift _

theorem moves_onMemory (f : Memory → Memory × Except Error α) :
    Moves Locals.KeepsRoom (onMemory f) := fun l => by
  unfold onMemory
  rcases f l.memory with ⟨m, _ | _⟩ <;> exact id

theorem moves_readMemory (offset length : ℕ) : Moves Locals.KeepsRoom (readMemory offset length) :=
  moves_onMemory _

theorem moves_readBuffer (offset length : ℕ) : Moves Locals.KeepsRoom (readBuffer offset length) :=
  moves_bind (moves_readMemory _ _) fun _ => moves_pure _

theorem keepsTop_bind {x : EvmM α} {f : α → EvmM β} (hx : KeepsTop x) (hf : ∀ a, Forks (f a)) :
    Forks (x >>= f) := Triple.bind hx hf

theorem makesRoom_bind {x : EvmM α} {f : α → EvmM β} (hx : MakesRoom x) (hf : ∀ a, Forks (f a)) :
    KeepsRoom (x >>= f) := Triple.bind hx hf

theorem forks_bind {x : EvmM α} {f : α → EvmM β} (hx : Forks x) (hf : ∀ a, KeepsRoom (f a)) :
    Forks (x >>= f) := Triple.bind hx hf

theorem keepsTop_get : KeepsTop get := fun _ h => h

theorem keepsTop_emit (e : Event) : KeepsTop (Evm.emit e) := fun _ h => h

theorem keepsTop_failIf (b : Bool) (e : Error) : KeepsTop (failIf b e) := fun s hs => by
  cases b with
  | false => exact hs
  | true => exact hs.1

theorem keepsTop_db (x : Db α) : KeepsTop (Evm.db x) := fun s hs => by
  rw [db_run]
  cases x s.backend.toDatabase <;> first | exact hs | exact hs.1 | trivial

theorem keepsTop_onLocals {x : LocalM α} (hx : Moves Locals.KeepsRoom x) :
    KeepsTop (Evm.onLocals x) := fun s hs => by
  have h := hx s.frame.locals
  unfold Evm.onLocals zoom
  cases hxs : x s.frame.locals with
  | ok a l =>
    rw [hxs] at h
    exact ⟨hs.1, h hs.2⟩
  | err e l => exact hs.1
  | panic p => trivial

theorem makesRoom_onLocals {x : LocalM α}
    (hx : ∀ l, (x l).Sat (fun _ l' => l'.stack.HasRoom) (fun _ _ => True) fun _ => True) :
    MakesRoom (Evm.onLocals x) := fun s hs => by
  have h := hx s.frame.locals
  unfold Evm.onLocals zoom
  cases hxs : x s.frame.locals with
  | ok a l =>
    rw [hxs] at h
    exact ⟨hs, h⟩
  | err e l => exact hs
  | panic p => trivial

/-- **The words of a call make room** for its result. -/
theorem makesRoom_popCallArgs (withValue : Bool) :
    MakesRoom (Evm.onLocals (Evm.popCallArgs withValue)) := by
  refine makesRoom_onLocals fun l => ?_
  refine Outcome.Sat.andThen (popWord_run l) fun gasLimit l' hl' => ?_
  have moves_popAddress : Moves Locals.KeepsRoom popAddress :=
    moves_bind moves_popWord fun _ => moves_pure _
  have moves_offsets (f : ℕ → ℕ → ℕ → ℕ → Evm.CallArgs) : Moves Locals.KeepsRoom (do
      let argsOffset ← popUsize
      let argsLength ← popUsize
      let returnOffset ← popUsize
      let returnLength ← popUsize
      pure (f argsOffset argsLength returnOffset returnLength)) :=
    moves_bind moves_popUsize fun _ => moves_bind moves_popUsize fun _ =>
      moves_bind moves_popUsize fun _ => moves_bind moves_popUsize fun _ => moves_pure _
  refine Outcome.Sat.imp (Q := fun _ l => l'.KeepsRoom l) (E := fun _ l => l'.KeepsRoom l)
    (A := fun _ => True) ?_ (fun _ _ h => h hl') (fun _ _ _ => trivial) fun _ _ => trivial
  cases withValue with
  | true => exact moves_bind moves_popAddress (fun _ => moves_bind moves_popWord fun _ =>
      moves_offsets _) l'
  | false => exact moves_bind moves_popAddress (fun _ => moves_offsets _) l'

theorem forks_fork (reason : Reason) (context : Context) (executionCode callData : Buffer)
    (gasLimit : Option U256) :
    Forks (Evm.fork reason context executionCode callData gasLimit) := fun s hs => by
  simp only [Evm.fork, bind_run, Evm.fallible, zoom]
  cases containerOf reason executionCode () with
  | ok container _ => exact List.forall_mem_cons.2 ⟨hs.2, hs.1⟩
  | err e _ => exact hs.1
  | panic f => trivial

theorem forks_forkCall (B : AccountStorage) (args : Evm.CallArgs) (context : Context) :
    Forks (Evm.forkCall B args context) :=
  keepsTop_bind (keepsTop_onLocals fun _ => id) fun _ =>
    keepsTop_bind (keepsTop_onLocals (moves_readBuffer _ _)) fun _ =>
      keepsTop_bind (keepsTop_db _) fun _ => keepsTop_bind (keepsTop_emit _) fun _ =>
        forks_fork _ _ _ _ _

/-! ### Every opcode -/

section

variable [Platform]

theorem keepsRoom_opcodeCallPrecompileImpl (address : Address) :
    KeepsRoom (Evm.opcodeCallPrecompileImpl B address) := by
  have answer {x : EvmM Bytes} (hx : KeepsRoom x) :
      KeepsRoom (x >>= fun value => Evm.opcodeReturnImpl (Buffer.fromSlice value)) :=
    keepsRoom_bind hx fun value => keepsRoom_ends (B := B) (ends_opcodeReturnImpl _)
  refine keepsRoom_bind keepsRoom_get fun s => ?_
  dsimp only
  cases precompile address s.env.callData.toList with
  | some x => exact answer (keepsRoom_fallible x)
  | none =>
    cases callPrecompileExtension B s.env.context address s.env.callData.toList
        s.env.isStatic with
    | none => exact keepsRoom_pure _
    | some x => exact answer (keepsRoom_db x)

omit [Platform] in
theorem keepsRoom_requireBalance (value : U256) : KeepsRoom (Evm.requireBalance B value) :=
  keepsRoom_bind keepsRoom_get fun _ => keepsRoom_bind (keepsRoom_db _) fun _ =>
    keepsRoom_failIf _ _

theorem keepsRoom_opcodeCall : KeepsRoom (Evm.opcodeCall B) :=
  makesRoom_bind (makesRoom_popCallArgs true) fun _ => keepsTop_bind keepsTop_get fun _ =>
    forks_bind (forks_forkCall B _ _) fun _ => keepsRoom_bind keepsRoom_takeSnapshot fun _ =>
      keepsRoom_bind keepsRoom_get fun _ => keepsRoom_bind (keepsRoom_failIf _ _) fun _ =>
        keepsRoom_bind (keepsRoom_requireBalance _) fun _ =>
          keepsRoom_bind (keepsRoom_db _) fun _ => keepsRoom_opcodeCallPrecompileImpl _

theorem keepsRoom_opcodeCallcode : KeepsRoom (Evm.opcodeCallcode B) :=
  makesRoom_bind (makesRoom_popCallArgs true) fun _ => keepsTop_bind keepsTop_get fun _ =>
    forks_bind (forks_forkCall B _ _) fun _ => keepsRoom_bind keepsRoom_takeSnapshot fun _ =>
      keepsRoom_bind (keepsRoom_requireBalance _) fun _ => keepsRoom_opcodeCallPrecompileImpl _

theorem keepsRoom_opcodeDelegatecall : KeepsRoom (Evm.opcodeDelegatecall B) :=
  makesRoom_bind (makesRoom_popCallArgs false) fun _ => keepsTop_bind keepsTop_get fun _ =>
    forks_bind (forks_forkCall B _ _) fun _ => keepsRoom_bind keepsRoom_takeSnapshot fun _ =>
      keepsRoom_opcodeCallPrecompileImpl _

theorem keepsRoom_opcodeStaticcall : KeepsRoom (Evm.opcodeStaticcall B) :=
  makesRoom_bind (makesRoom_popCallArgs false) fun _ => keepsTop_bind keepsTop_get fun _ =>
    forks_bind (forks_forkCall B _ _) fun _ => keepsRoom_bind keepsRoom_setStatic fun _ =>
      keepsRoom_bind keepsRoom_takeSnapshot fun _ => keepsRoom_opcodeCallPrecompileImpl _

omit [Platform] in
theorem forks_opcodeCreateImpl (address : Address) (value : U256) (offset length : ℕ) :
    Forks (Evm.opcodeCreateImpl B address value offset length) :=
  keepsTop_bind keepsTop_get fun _ => keepsTop_bind (keepsTop_db _) fun _ =>
    keepsTop_bind (keepsTop_failIf _ _) fun _ => keepsTop_bind (keepsTop_db _) fun _ =>
    keepsTop_bind (keepsTop_onLocals fun _ => id) fun _ =>
    keepsTop_bind (keepsTop_onLocals (moves_readBuffer _ _)) fun _ =>
    keepsTop_bind (keepsTop_emit _) fun _ => keepsTop_bind (keepsTop_db _) fun _ =>
    keepsTop_bind (keepsTop_failIf _ _) fun _ => forks_bind (forks_fork _ _ _ _ _) fun _ =>
    keepsRoom_bind keepsRoom_takeSnapshot fun _ => keepsRoom_bind keepsRoom_get fun _ =>
    keepsRoom_bind (keepsRoom_db _) fun _ => keepsRoom_bind (keepsRoom_failIf _ _) fun _ =>
    keepsRoom_bind (keepsRoom_db _) fun _ => keepsRoom_bind (keepsRoom_failIf _ _) fun _ =>
    keepsRoom_bind (keepsRoom_requireBalance _) fun _ => keepsRoom_bind (keepsRoom_db _) fun _ =>
    keepsRoom_bind (keepsRoom_db _) fun _ => keepsRoom_pure _

theorem keepsRoom_opcodeCreate : KeepsRoom (Evm.opcodeCreate B) := by
  refine keepsRoom_bind keepsRoom_get fun s => keepsRoom_ite (keepsRoom_fail _) ?_
  exact makesRoom_bind (makesRoom_onLocals popWord_run) fun _ =>
    keepsTop_bind (keepsTop_onLocals moves_popUsize) fun _ =>
    keepsTop_bind (keepsTop_onLocals moves_popUsize) fun _ =>
    keepsTop_bind (keepsTop_db _) fun _ =>
    keepsTop_bind (keepsTop_onLocals (moves_readMemory _ _)) fun _ =>
    forks_opcodeCreateImpl _ _ _ _

theorem keepsRoom_opcodeCreate2 : KeepsRoom (Evm.opcodeCreate2 B) := by
  refine keepsRoom_bind keepsRoom_get fun s => keepsRoom_ite (keepsRoom_fail _) ?_
  exact makesRoom_bind (makesRoom_onLocals popWord_run) fun _ =>
    keepsTop_bind (keepsTop_onLocals moves_popUsize) fun _ =>
    keepsTop_bind (keepsTop_onLocals moves_popUsize) fun _ =>
    keepsTop_bind (keepsTop_onLocals moves_popWord) fun _ =>
    keepsTop_bind (keepsTop_onLocals (moves_readMemory _ _)) fun _ =>
    forks_opcodeCreateImpl _ _ _ _

/-- **Every opcode keeps room** in the parents. -/
theorem keepsRoom_opcode (op : Opcode) : KeepsRoom (op.run B) := by
  cases op with
  | loc op => exact fun s => keepsRoom_onLocals _ s
  | sys op =>
    cases op with
    | sload =>
      exact keepsRoom_bind (keepsRoom_onLocals _) fun _ => keepsRoom_bind keepsRoom_get fun _ =>
        keepsRoom_bind (keepsRoom_db _) fun _ => keepsRoom_bind (keepsRoom_emit _) fun _ =>
        keepsRoom_bind (keepsRoom_onLocals _) fun _ => keepsRoom_pure _
    | sstore =>
      refine keepsRoom_bind keepsRoom_get fun s => keepsRoom_ite (keepsRoom_fail _) ?_
      exact keepsRoom_bind (keepsRoom_onLocals _) fun _ => keepsRoom_bind (keepsRoom_onLocals _)
        fun _ => keepsRoom_bind (keepsRoom_emit _) fun _ => keepsRoom_bind (keepsRoom_db _)
        fun _ => keepsRoom_pure _
    | create => exact keepsRoom_opcodeCreate
    | create2 => exact keepsRoom_opcodeCreate2
    | call => exact keepsRoom_opcodeCall
    | callcode => exact keepsRoom_opcodeCallcode
    | delegatecall => exact keepsRoom_opcodeDelegatecall
    | staticcall => exact keepsRoom_opcodeStaticcall
    | ret => exact keepsRoom_ends (B := B) ends_opcodeReturn
    | revert => exact keepsRoom_ends (B := B) ends_opcodeRevert
    | stop => exact keepsRoom_ends (B := B) ends_opcodeStop
    | selfdestruct => exact keepsRoom_ends ends_opcodeSelfdestruct
    | retf =>
      refine keepsRoom_bind keepsRoom_get fun s => ?_
      cases s.frame.locals.returnStack with
      | nil => exact keepsRoom_fail _
      | cons ctx rest =>
        exact keepsRoom_bind (keepsRoom_onLocals _) fun _ =>
          keepsRoom_ite (keepsRoom_pure _) (keepsRoom_pure _)

theorem keepsRoom_runOpcode (isEof : Bool) : KeepsRoom (Evm.runOpcode B isEof) := by
  refine keepsRoom_bind (keepsRoom_bind keepsRoom_get fun s => ?_) fun _ => keepsRoom_opcode _
  dsimp only
  cases getCode s.env s.frame.locals with
  | error f => exact fun _ _ => trivial
  | ok code => exact keepsRoom_bind (keepsRoom_emit _) fun _ => keepsRoom_pure _

end

/-! ## Delivery -/

/-- The range cannot be written: it is not empty, and ends outside the memory limit. -/
def Memory.refuses (m : Memory) (range : Range) : Bool :=
  range.len ≠ 0 && !(m.realloc range.start range.len).2.isOk

/-- The current frame was opened by a call, and its caller's return range cannot be written. -/
def Evm.undeliverable (s : Evm) : Bool :=
  match s.parents with
  | [] => false
  | p :: _ => s.env.reason = .call && p.locals.memory.refuses p.locals.returnRange

theorem Memory.length_sourceBytes (length : ℕ) (source : Bytes) :
    (sourceBytes length source 0).length = length := by
  unfold sourceBytes
  split
  · simp
  · split
    · simp
      omega
    · simp
      omega

/-- A range that is not refused is written. -/
theorem Memory.writeRange_ok {m : Memory} {range : Range} {source : Bytes}
    (h : m.refuses range = false) : (m.writeRange range source).2 = .ok () := by
  unfold writeRange writeBuffer
  split
  · rfl
  · next hlen =>
    unfold storeAt
    rw [length_sourceBytes]
    have hok : (m.realloc range.start range.len).2.isOk = true := by
      simpa [refuses, hlen] using h
    rcases hr : m.realloc range.start range.len with ⟨m', r⟩
    rw [hr] at hok
    cases r with
    | ok _ => rfl
    | error e => cases hok

open Locals in
/-- **Delivery succeeds** where the range can be written and the word pushed. -/
theorem Evm.deliver_ok {l : Locals} {bytes : Bytes} {word : U256} (hroom : l.stack.HasRoom)
    (hrange : l.memory.refuses l.returnRange = false) :
    ∃ l', Evm.deliver bytes word l = .ok () l' ∧ l'.stack.words = word :: l.stack.words ∧
      l'.pc = l.pc := by
  have hwrite : (l.memory.writeRange l.returnRange bytes).2 = .ok () := Memory.writeRange_ok hrange
  simp only [Evm.deliver, writeRange, onMemory, bind_run, get_run, Outcome.ok_andThen]
  rcases hm : l.memory.writeRange l.returnRange bytes with ⟨m, r⟩
  rw [hm] at hwrite
  obtain rfl : r = .ok () := hwrite
  exact ⟨_, Locals.pushWord_eq (l := { l with memory := m }) hroom word, rfl, rfl⟩

/-- The caller `q` over `qs` goes on behind its opcode: the frame that it called has reverted with
the text of `e`. -/
structure Evm.ToldOf (e : Error) (q : Frame) (qs : List Frame) (t : Evm) : Prop where
  parents : t.parents = qs
  env : t.env = q.env
  stack : t.frame.locals.stack.words = 0 :: q.locals.stack.words
  returnData : t.frame.locals.returnData.toList = e.revertMessage
  pc : t.frame.locals.pc = q.locals.pc + 1

/-- **The failure of `s` ends as a revert of its frame**: the snapshot is taken back, and the caller
is told, or the run ends. -/
def Evm.Reverted (e : Error) (s : Evm) : Progress → Prop
  | .running t => revertSnapshot s.backend = .ok () t.backend ∧
    ∃ q qs, s.parents = q :: qs ∧ Evm.ToldOf e q qs t
  | .exited status t => revertSnapshot s.backend = .ok () t.backend ∧
    s.parents = [] ∧ status = .revert e.revertMessage
  | _ => False

open Locals in
/-- **The handler of errors reverts the frame**, if it finds the snapshot and the return range can be
written. -/
theorem micro_failed_reverted [Platform] (isEof : Bool) (e : Error) (hs : s.Roomy)
    (hrange : s.undeliverable = false) :
    (∃ p, revertSnapshot s.backend = .panic p ∧ micro B isEof (.failed e s) = .panicked p) ∨
      Evm.Reverted e s (micro B isEof (.failed e s)) := by
  unfold micro
  dsimp only
  unfold Evm.handleError Evm.opcodeRevertImpl Evm.leave Evm.dbStack
  simp only [bind_run, zoom]
  cases hb : revertSnapshot s.backend with
  | err err b => exact (Ending.takeBack_ne_err .revert _ _ _ hb).elim
  | panic p => exact .inl ⟨p, rfl, rfl⟩
  | ok _ b =>
    refine .inr ?_
    simp only [Outcome.ok_andThen, bind_run, get_run]
    cases hp : s.parents with
    | nil =>
      have hparents : (s.setBackend b).parents = [] := hp
      rw [if_pos hparents]
      exact ⟨hb, hp, rfl⟩
    | cons q qs =>
      have hparents : (s.setBackend b).parents = q :: qs := hp
      have hne : (s.setBackend b).parents ≠ [] := by simp [hparents]
      have hroom : q.locals.stack.HasRoom := hs q (hp ▸ List.mem_cons_self)
      obtain ⟨l, hl, hstack, hpc⟩ : ∃ l, Evm.deliverTo s.frame.env.reason
          (Evm.deliver (Buffer.fromSlice e.revertMessage).toList (wordOfBool false)) (pushWord 0)
          q.locals = .ok () l ∧ l.stack.words = 0 :: q.locals.stack.words ∧ l.pc = q.locals.pc := by
        cases hreason : s.frame.env.reason with
        | call =>
          refine Evm.deliver_ok hroom ?_
          simpa [Evm.undeliverable, hp, Evm.env, hreason] using hrange
        | create => exact ⟨_, Locals.pushWord_eq hroom 0, rfl, rfl⟩
      rw [if_neg hne]
      simp only [bind_run, Evm.emitEnd, Evm.emit, modify_run, Outcome.ok_andThen, Evm.join,
        hparents, Evm.onLocals, zoom]
      rw [show (s.setBackend b).frame = s.frame from rfl, hl]
      exact ⟨hb, q, qs, hp, rfl, rfl, hstack, rfl, congrArg (· + 1) hpc⟩

/-! ## Runs -/

section

variable [Platform] {x y : Session} {k : Session.Kind}

/-- The next step does not have to deliver where it cannot. -/
def Session.Deliverable (x : Session) : Prop :=
  match x.progress with
  | .failed _ s => s.undeliverable = false
  | _ => True

/-- No error has escaped, and the parents have room. -/
def Progress.Contained : Progress → Prop
  | .running s | .failed _ s => s.Roomy
  | .escaped _ _ => False
  | _ => True

omit [Platform] in
theorem Evm.conclude_contained {a : OpAction} (hs : s.Roomy) : (Evm.conclude a s).Contained := by
  have hparents : (Evm.traceEndStep a s).parents = s.parents :=
    congrArg Chain.parents (Evm.chain_traceEndStep a s)
  dsimp only [Evm.conclude]
  cases a.exit? with
  | some status => trivial
  | none => exact fun p hp => hs p (hparents ▸ hp)

theorem enter_contained (hs : s.Roomy) : (enter s).Contained := by
  have h := enterVM_run s
  unfold enter
  cases hx : enterVM s with
  | ok o t =>
    simp only [hx, Outcome.Sat] at h
    cases o with
    | none => exact fun p hp => hs p (h.2.1 ▸ hp)
    | some status => trivial
  | err e t =>
    simp only [hx, Outcome.Sat] at h
  | panic p => trivial

/-- **A step contains its errors**, if it can deliver. -/
theorem Session.contained_after (hx : x.progress.Contained) (hdeliver : x.Deliverable) :
    (x.after B k).progress.Contained := by
  obtain ⟨isEof, p⟩ := x
  cases k with
  | resume =>
    cases p with
    | running s => exact enter_contained hx
    | _ => exact hx
  | next =>
    cases p with
    | running s =>
      have h := keepsRoom_runOpcode (B := B) isEof s hx
      show (micro B isEof (.running s)).Contained
      unfold micro
      dsimp only
      cases ho : Evm.runOpcode B isEof s with
      | ok a t =>
        rw [ho] at h
        exact Evm.conclude_contained h
      | err e t =>
        rw [ho] at h
        exact h
      | panic p => trivial
    | failed err s =>
      show (micro B isEof (.failed err s)).Contained
      rcases micro_failed_reverted (B := B) isEof err hx hdeliver with ⟨p, -, hp⟩ | hback
      · rw [hp]
        trivial
      · cases hm : micro B isEof (.failed err s) with
        | running t =>
          rw [hm] at hback
          obtain ⟨-, q, qs, hparents, htold⟩ := hback
          intro r hr
          exact hx r (hparents ▸ List.mem_cons_of_mem q (htold.parents ▸ hr))
        | exited status t => trivial
        | failed _ _ =>
          rw [hm] at hback
          exact hback.elim
        | escaped _ _ =>
          rw [hm] at hback
          exact hback.elim
        | panicked p => trivial
    | _ => exact hx

theorem Session.Starts.contained {trx : Transaction} {origin : Address}
    (h : Session.Starts B trx origin x) : x.progress.Contained := by
  obtain ⟨m, b, tracer, hnew, rfl⟩ := h
  obtain ⟨base, hfresh⟩ : ∃ base, Machine.Fresh B origin m base b := by
    simpa [hnew, Outcome.Sat] using Machine.new_run (B := B) trx origin
  refine enter_contained fun p hp => ?_
  have hparents : m.parents = [] := hfresh.parents
  simp [hparents] at hp

end

/-! ## A test of delivery -/

/-- A contract that fails at once. -/
def invalidCode : Bytes := [0xFE]

/-- A test of `Deliverable`. -/
def Session.delivers (x : Session) : Bool :=
  match x.progress with
  | .failed _ s => !s.undeliverable
  | _ => true

theorem Session.deliverable_of_delivers {x : Session} (h : x.delivers = true) : x.Deliverable := by
  unfold delivers at h
  unfold Deliverable
  cases hp : x.progress <;> simp_all

end NeonEvm
