import NeonEvm.Evm.Escape
import NeonEvm.Evm.InStep
import NeonEvm.Evm.Stages
import NeonEvm.Evm.StructLogger

/-!
# Evm/TracedDepth — the tracer's depth is the length of the chain

    BeginVM · fork          a frame is announced, then opened
    EndStep · EndVM · join  a frame is left

Between the announcement and the fork the code may still be refused: the tracer counts a frame that
is never opened, and goes on counting it.
-/

namespace NeonEvm

open Exec ExecutorState Chain

variable {α β : Type} {B : AccountStorage} {config : TraceConfig} {k : ℕ} {s t u : Evm}

/-! ## Machines that are traced -/

/-- The tracer counts the machines, and `k` more that were only announced. -/
def Evm.Counts (config : TraceConfig) (k : ℕ) (s : Evm) : Prop :=
  ∃ l, s.logger config = some l ∧ l.depth = s.parents.length + 1 + k

/-- It does so within a step. -/
def Evm.CountsStep (config : TraceConfig) (k : ℕ) (s : Evm) : Prop :=
  ∃ l, s.logger config = some l ∧ l.depth = s.parents.length + 1 + k ∧ l.logs ≠ []

/-- What `t` is from `s` on: as far from the count as it was. -/
def Evm.Level (config : TraceConfig) (s t : Evm) : Prop :=
  ∀ k, s.CountsStep config k → t.CountsStep config k

instance : IsTrans Evm (Evm.Level config) := ⟨fun _ _ _ h h' k hk => h' k (h k hk)⟩

instance : Std.Refl (Evm.Level config) := ⟨fun _ _ hk => hk⟩

theorem Evm.CountsStep.counts (h : s.CountsStep config k) : s.Counts config k :=
  h.imp fun _ h => ⟨h.1, h.2.1⟩

/-- Neither the tracer nor the chain has changed. -/
structure Evm.Unseen (s t : Evm) : Prop where
  tracer : t.tracer = s.tracer
  parents : t.parents = s.parents

instance : IsTrans Evm Evm.Unseen :=
  ⟨fun _ _ _ h h' => ⟨h'.tracer.trans h.tracer, h'.parents.trans h.parents⟩⟩

instance : Std.Refl Evm.Unseen := ⟨fun _ => ⟨rfl, rfl⟩⟩

theorem Evm.Unseen.level (h : s.Unseen t) : s.Level config t := by
  rintro k ⟨l, hl, hdepth, hlogs⟩
  exact ⟨l, (StructLogger.logger_congr h.tracer).trans hl, h.parents.symm ▸ hdepth, hlogs⟩

theorem level_endStep (s : Evm) (returnData : Option Bytes) :
    s.Level config (s.traced (.endStep returnData)) := by
  rintro k ⟨l, hl, hdepth, hlogs⟩
  obtain ⟨l', hl', hdepth', hlogs'⟩ := StructLogger.event_endStep returnData hlogs
  refine ⟨l', ?_, hdepth'.trans hdepth, hlogs'⟩
  rw [StructLogger.logger_traced, hl, Option.bind_some, hl']
  rfl

theorem level_storageAccess (s : Evm) (index value : U256) :
    s.Level config (s.traced (.storageAccess index value)) := by
  rintro k ⟨l, hl, hdepth, hlogs⟩
  obtain ⟨l', hl', hdepth', hlogs'⟩ := StructLogger.event_storageAccess l index value
  refine ⟨l', ?_, hdepth'.trans hdepth, hlogs' ▸ hlogs⟩
  rw [StructLogger.logger_traced, hl, Option.bind_some, hl']
  rfl

/-- **An announcement is counted.** -/
theorem Evm.CountsStep.beginVM (h : s.CountsStep config k) (context : Context) (code : Bytes) :
    (s.traced (.beginVM context code)).CountsStep config (k + 1) := by
  obtain ⟨l, hl, hdepth, hlogs⟩ := h
  refine ⟨{ l with depth := l.depth + 1 }, ?_, ?_, hlogs⟩
  · rw [StructLogger.logger_traced, hl]
    rfl
  · show l.depth + 1 = s.parents.length + 1 + (k + 1)
    omega

/-- **A frame that is left** is counted no more. -/
theorem Evm.CountsStep.leave {p : Frame} {ps : List Frame} (h : s.CountsStep config k)
    (hp : s.parents = p :: ps) (status : ExitStatus) :
    ({ s.traced (.endVM status) with frame := p, parents := ps } : Evm).CountsStep config k := by
  obtain ⟨l, hl, hdepth, hlogs⟩ := h
  refine ⟨{ l with depth := l.depth - 1 }, ?_, ?_, hlogs⟩
  · show (s.traced (.endVM status)).logger config = _
    rw [StructLogger.logger_traced, hl]
    rfl
  · rw [hp, List.length_cons] at hdepth
    show l.depth - 1 = ps.length + 1 + k
    omega

/-- The end of a run. -/
theorem Evm.Counts.endVM (h : s.Counts config 0) (hp : s.parents = []) (status : ExitStatus) :
    ((s.traced (.endVM status)).logger config).map (·.depth) = some 0 := by
  obtain ⟨l, hl, hdepth⟩ := h
  rw [hp] at hdepth
  rw [StructLogger.logger_traced, hl]
  show some (l.depth - 1) = some 0
  rw [hdepth]
  rfl

/-! ## Computations that keep the count -/

theorem unseen_zoom {τ ρ : Type} {view : Evm → τ} {put : Evm → τ → Evm} {ab : ρ → Panic}
    {x : Exec ρ Error τ α} (h : ∀ s c, Evm.Unseen s (put s c)) :
    Moves Evm.Unseen (zoom view put ab x) := fun s => by
  unfold zoom
  cases x (view s) with
  | ok a c => exact h s c
  | err e c => exact h s c
  | panic p => trivial

theorem unseen_onLocals (x : LocalM α) : Moves Evm.Unseen (Evm.onLocals x) :=
  unseen_zoom fun _ _ => ⟨rfl, rfl⟩

theorem unseen_db (x : Db α) : Moves Evm.Unseen (Evm.db x) := unseen_zoom fun _ _ => ⟨rfl, rfl⟩

theorem unseen_dbStack (x : Exec Panic Error ExecutorState α) :
    Moves Evm.Unseen (Evm.dbStack x) := unseen_zoom fun _ _ => ⟨rfl, rfl⟩

theorem unseen_fallible (x : Fallible α) : Moves Evm.Unseen (Evm.fallible x) :=
  unseen_zoom fun _ _ => ⟨rfl, rfl⟩

theorem level_onLocals (x : LocalM α) : Moves (Evm.Level config) (Evm.onLocals x) :=
  (unseen_onLocals x).mono fun _ _ => Evm.Unseen.level

theorem level_db (x : Db α) : Moves (Evm.Level config) (Evm.db x) :=
  (unseen_db x).mono fun _ _ => Evm.Unseen.level

theorem level_dbStack (x : Exec Panic Error ExecutorState α) :
    Moves (Evm.Level config) (Evm.dbStack x) :=
  (unseen_dbStack x).mono fun _ _ => Evm.Unseen.level

theorem level_fallible (x : Fallible α) : Moves (Evm.Level config) (Evm.fallible x) :=
  (unseen_fallible x).mono fun _ _ => Evm.Unseen.level

theorem level_takeSnapshot : Moves (Evm.Level config) Evm.takeSnapshot :=
  moves_modify fun _ => Evm.Unseen.level ⟨rfl, rfl⟩

theorem level_setStatic : Moves (Evm.Level config) (modify Evm.setStatic : EvmM Unit) :=
  moves_modify fun _ => Evm.Unseen.level ⟨rfl, rfl⟩

/-- **Leaving a frame** keeps the count. -/
theorem level_leave (exit : OpAction) (status : ExitStatus) (returnData : Option Bytes)
    (delivery : Frame → LocalM Unit) :
    Moves (Evm.Level config) (Evm.leave exit status returnData delivery) := fun s => by
  unfold Evm.leave
  rw [bind_run, get_run, Outcome.ok_andThen]
  rcases hp : s.parents with _ | ⟨p, ps⟩
  · rw [if_pos rfl]
    exact moves_pure exit s
  · rw [if_neg (List.cons_ne_nil p ps)]
    simp only [bind_run, Evm.emitEnd, Evm.emit, modify_run, Outcome.ok_andThen, Evm.join, hp]
    have hleft : s.Level config
        { (s.traced (.endStep returnData)).traced (.endVM status) with
          frame := p, parents := ps } :=
      fun k hk => (level_endStep s returnData k hk).leave hp status
    refine Outcome.Within.trans hleft ?_
    exact moves_bind (level_onLocals (delivery s.frame)) (fun _ => moves_pure OpAction.continue) _

theorem level_leaveEmpty (exit : OpAction) (status : ExitStatus) :
    Moves (Evm.Level config) (Evm.leaveEmpty exit status) :=
  moves_bind (level_dbStack _) fun _ => level_leave _ _ _ _

theorem level_storeCode (contract : Address) (code : Buffer) :
    Moves (Evm.Level config) (Evm.storeCode contract code) :=
  moves_bind (level_fallible _) fun _ => moves_bind (level_db _) fun _ => moves_pure _

theorem level_opcodeReturnImpl (data : Buffer) :
    Moves (Evm.Level config) (Evm.opcodeReturnImpl data) := by
  refine moves_bind moves_get fun s => moves_ite (fun _ => ?_) fun _ => ?_
  · exact moves_bind (level_storeCode _ _) fun _ => moves_bind (level_dbStack _) fun _ =>
      level_leave _ _ _ _
  · exact moves_bind (moves_pure data) fun _ => moves_bind (level_dbStack _) fun _ =>
      level_leave _ _ _ _

theorem level_opcodeRevertImpl (data : Buffer) :
    Moves (Evm.Level config) (Evm.opcodeRevertImpl data) :=
  moves_bind (level_dbStack _) fun _ => level_leave _ _ _ _

theorem level_requireBalance (value : U256) :
    Moves (Evm.Level config) (Evm.requireBalance B value) :=
  moves_bind moves_get fun _ => moves_bind (level_db _) fun _ => moves_failIf _ _

/-! ## Children that are announced -/

/-- The code can be run by a child. -/
def canFork (reason : Reason) (code : Buffer) : Bool :=
  (containerOf reason code ()).okAnd fun _ _ => true

/-- The fork of an announced child. -/
theorem Evm.CountsStep.sat_fork {reason : Reason} {code : Buffer}
    (hs : s.CountsStep config (k + 1)) (context : Context) (callData : Buffer)
    (gasLimit : Option U256) (hcan : canFork reason code = true) :
    (Evm.fork reason context code callData gasLimit s).Sat (fun _ t => t.CountsStep config k)
      (fun _ _ => False) fun _ => True := by
  simp only [Evm.fork, bind_run, Evm.fallible, zoom]
  unfold canFork at hcan
  rcases hcontainer : containerOf reason code () with ⟨container, _⟩ | ⟨e, _⟩ | p
  · obtain ⟨l, hl, hdepth, hlogs⟩ := hs
    refine ⟨l, hl, ?_, hlogs⟩
    show l.depth = s.parents.length + 1 + 1 + k
    omega
  · rw [hcontainer] at hcan
    exact (Bool.false_ne_true hcan).elim
  · trivial

namespace Evm

open Locals

/-- A call announces a child that it cannot open. -/
def abandonsCall (B : AccountStorage) (withValue : Bool) (s : Evm) : Bool :=
  ((onLocals (popCallArgs withValue) >>= readCall B) s).okAnd fun d _ => !canFork .call d.2

/-- The code of a child of the creator can be run. -/
def canCreate (B : AccountStorage) (creator : Address) (initCode : Buffer) (s : Evm) : Bool :=
  (ExecutorState.code B creator s.backend.toDatabase).okAnd fun code _ =>
    (hasEofMagic code || !hasEofMagic initCode) && canFork .create initCode

/-- A creation announces a child that it cannot open. -/
def abandonsCreate (B : AccountStorage) (args : EvmM CreateArgs) (s : Evm) : Bool :=
  ((args >>= fun a => readCreate B a.offset a.length) s).okAnd fun d t =>
    !canCreate B d.1.contract d.2 t

variable [Platform]

/-- **The opcode announces a child that it cannot open**: the code of the child has the magic of a
container, and is not one, or the creator has no right to it. -/
def abandons (B : AccountStorage) (s : Evm) : Opcode → Bool
  | .sys .call | .sys .callcode => abandonsCall B true s
  | .sys .delegatecall | .sys .staticcall => abandonsCall B false s
  | .sys .create => abandonsCreate B (popCreate B) s
  | .sys .create2 => abandonsCreate B popCreate2 s
  | _ => false

end Evm

theorem level_readCall (args : Evm.CallArgs) : Moves (Evm.Level config) (Evm.readCall B args) :=
  moves_bind (level_onLocals _) fun _ => moves_bind (level_onLocals _) fun _ =>
    moves_bind (level_db _) fun _ => moves_pure _

/-- Along a computation that keeps the count. -/
theorem Evm.CountsStep.sat_bind {x : EvmM α} {f : α → EvmM β} (hs : s.CountsStep config k)
    (hx : Moves (Evm.Level config) x)
    (hf : ∀ a t, x s = .ok a t → t.CountsStep config k → (f a t).Sat
      (fun _ t => t.CountsStep config k) (fun _ t => t.CountsStep config k) fun _ => True) :
    ((x >>= f) s).Sat (fun _ t => t.CountsStep config k) (fun _ t => t.CountsStep config k)
      fun _ => True := by
  have h := hx s
  rw [bind_run]
  rcases hrun : x s with ⟨a, t⟩ | ⟨e, t⟩ | p
  · rw [hrun] at h
    exact hf a t hrun (h k hs)
  · rw [hrun] at h
    exact h k hs
  · trivial

theorem Evm.CountsStep.sat {x : EvmM α} (hs : s.CountsStep config k)
    (hx : Moves (Evm.Level config) x) :
    (x s).Sat (fun _ t => t.CountsStep config k) (fun _ t => t.CountsStep config k)
      fun _ => True :=
  (hx s).imp (fun _ _ h => h k hs) (fun _ _ h => h k hs) fun _ h => h

/-- **The child of a call** is announced and opened. -/
theorem Evm.CountsStep.sat_forkCall {args : Evm.CallArgs} {context : Context}
    {f : Unit → EvmM α} (hs : s.CountsStep config k)
    (hcan : ∀ d t, Evm.readCall B args s = .ok d t → canFork .call d.2 = true)
    (hf : Moves (Evm.Level config) (f ())) :
    ((Evm.forkCall B args context >>= f) s).Sat (fun _ t => t.CountsStep config k)
      (fun _ t => t.CountsStep config k) fun _ => True := by
  rw [forkCall_eq, bind_bind]
  refine hs.sat_bind (level_readCall args) fun d t hread ht => ?_
  have hfork := (ht.beginVM context d.2.toList).sat_fork context d.1 (some args.gasLimit)
    (hcan d t hread)
  exact (hfork.imp (fun _ _ h => h) (fun _ _ h => h.elim) fun _ h => h).andThen
    fun _ u hu => hu.sat hf

section

variable [Platform]

theorem level_opcodeCallPrecompileImpl (address : Address) :
    Moves (Evm.Level config) (Evm.opcodeCallPrecompileImpl B address) := by
  refine moves_bind moves_get fun s => ?_
  dsimp only
  have answer {x : EvmM Bytes} (hx : Moves (Evm.Level config) x) :
      Moves (Evm.Level config) (x >>= fun v => Evm.opcodeReturnImpl (Buffer.fromSlice v)) :=
    moves_bind hx fun v => level_opcodeReturnImpl _
  rcases precompile address s.env.callData.toList with _ | x
  · rcases callPrecompileExtension B s.env.context address s.env.callData.toList
      s.env.isStatic with _ | x
    · exact moves_pure _
    · exact answer (level_db x)
  · exact answer (level_fallible x)

omit [Platform] in
/-- The four calls. -/
theorem Evm.CountsStep.sat_call {withValue : Bool} {f : Evm.CallArgs → EvmM OpAction}
    (hs : s.CountsStep config k) (context : Context → Evm.CallArgs → Context)
    (hcan : s.abandonsCall B withValue = false) (hf : ∀ args, Moves (Evm.Level config) (f args)) :
    ((do
      let args ← Evm.onLocals (Evm.popCallArgs withValue)
      let self := (← get).env.context
      Evm.forkCall B args (context self args)
      f args : EvmM OpAction) s).Sat (fun _ t => t.CountsStep config k)
      (fun _ t => t.CountsStep config k) fun _ => True := by
  refine hs.sat_bind (level_onLocals _) fun args t hargs ht => ?_
  refine ht.sat_forkCall (f := fun _ => f args) (fun d u hread => ?_) (hf args)
  unfold Evm.abandonsCall at hcan
  rw [bind_run, hargs, Outcome.ok_andThen, hread] at hcan
  simpa [Outcome.okAnd] using hcan

theorem Evm.CountsStep.sat_opcodeCall (hs : s.CountsStep config k)
    (hcan : s.abandonsCall B true = false) :
    (Evm.opcodeCall B s).Sat (fun _ t => t.CountsStep config k)
      (fun _ t => t.CountsStep config k) fun _ => True :=
  hs.sat_call (fun self args =>
    { caller := self.contract, contract := args.address, value := args.value
      codeAddress := some args.address }) hcan fun _ =>
    moves_bind level_takeSnapshot fun _ => moves_bind moves_get fun _ =>
    moves_bind (moves_failIf _ _) fun _ => moves_bind (level_requireBalance _) fun _ =>
    moves_bind (level_db _) fun _ => level_opcodeCallPrecompileImpl _

theorem Evm.CountsStep.sat_opcodeCallcode (hs : s.CountsStep config k)
    (hcan : s.abandonsCall B true = false) :
    (Evm.opcodeCallcode B s).Sat (fun _ t => t.CountsStep config k)
      (fun _ t => t.CountsStep config k) fun _ => True :=
  hs.sat_call (fun self args =>
    { caller := self.contract, contract := self.contract, value := args.value
      codeAddress := some args.address }) hcan fun _ =>
    moves_bind level_takeSnapshot fun _ => moves_bind (level_requireBalance _) fun _ =>
    level_opcodeCallPrecompileImpl _

theorem Evm.CountsStep.sat_opcodeDelegatecall (hs : s.CountsStep config k)
    (hcan : s.abandonsCall B false = false) :
    (Evm.opcodeDelegatecall B s).Sat (fun _ t => t.CountsStep config k)
      (fun _ t => t.CountsStep config k) fun _ => True :=
  hs.sat_call (fun self args => { self with codeAddress := some args.address }) hcan
    fun _ => moves_bind level_takeSnapshot fun _ => level_opcodeCallPrecompileImpl _

theorem Evm.CountsStep.sat_opcodeStaticcall (hs : s.CountsStep config k)
    (hcan : s.abandonsCall B false = false) :
    (Evm.opcodeStaticcall B s).Sat (fun _ t => t.CountsStep config k)
      (fun _ t => t.CountsStep config k) fun _ => True :=
  hs.sat_call (fun self args =>
    { caller := self.contract, contract := args.address, value := 0
      codeAddress := some args.address }) hcan fun _ =>
    moves_bind level_setStatic fun _ => moves_bind level_takeSnapshot fun _ =>
    level_opcodeCallPrecompileImpl _

end

/-! ## Creations -/

theorem level_readCreate (offset length : ℕ) :
    Moves (Evm.Level config) (Evm.readCreate B offset length) :=
  moves_bind moves_get fun _ => moves_bind (level_db _) fun _ => moves_bind (moves_failIf _ _)
    fun _ => moves_bind (level_db _) fun _ => moves_bind (level_onLocals _) fun _ =>
    moves_bind (level_onLocals _) fun _ => moves_pure _

/-- **The child of a creation** is announced and opened. -/
theorem Evm.CountsStep.sat_openCreate {address : Address} {value : U256} {d : Context × Buffer}
    (hs : s.CountsStep config k) (hcan : s.canCreate B d.1.contract d.2 = true) :
    (Evm.openCreate B address value d s).Sat (fun _ t => t.CountsStep config k)
      (fun _ t => t.CountsStep config k) fun _ => True := by
  set context : Context :=
    { caller := d.1.contract, contract := address, value, codeAddress := none } with hcontext
  have hannounced := hs.beginVM context d.2.toList
  have hcode := db_code_run (B := B) d.1.contract (s.traced (.beginVM context d.2.toList))
  have hlevel : Outcome.Within (Evm.Level config) _ _ := level_db (code B d.1.contract)
    (s.traced (.beginVM context d.2.toList))
  unfold Evm.canCreate at hcan
  unfold Evm.openCreate
  rw [bind_run, Evm.emit, modify_run, Outcome.ok_andThen]
  change Outcome.Sat _ _ _ ((Evm.db (code B d.1.contract) >>= _)
    (s.traced (.beginVM context d.2.toList)))
  rw [bind_run]
  rcases hrun : Evm.db (code B d.1.contract) (s.traced (.beginVM context d.2.toList)) with
    ⟨c, t⟩ | ⟨e, t⟩ | p
  · rw [hrun] at hcode hlevel
    have ht : t.CountsStep config (k + 1) := hlevel _ hannounced
    have hc : code B d.1.contract s.backend.toDatabase = .ok c s.backend.toDatabase := hcode.2
    rw [hc] at hcan
    obtain ⟨hmagic, hfork⟩ := Bool.and_eq_true_iff.1 hcan
    have hguard : (!hasEofMagic c && hasEofMagic d.2) = false := by
      simpa [imp_iff_or_not, or_comm] using hmagic
    rw [Outcome.ok_andThen, hguard]
    refine ((ht.sat_fork context .empty none hfork).imp (fun _ _ h => h) (fun _ _ h => h.elim) fun _ h => h).andThen
      fun _ u hu => hu.sat ?_
    exact moves_bind level_takeSnapshot fun _ => moves_bind moves_get fun _ =>
      moves_bind (level_db _) fun _ => moves_bind (moves_failIf _ _) fun _ =>
      moves_bind (level_db _) fun _ => moves_bind (moves_failIf _ _) fun _ =>
      moves_bind (level_requireBalance _) fun _ => moves_bind (level_db _) fun _ =>
      moves_bind (level_db _) fun _ => moves_pure _
  · rw [hrun] at hcode
    exact hcode.elim
  · trivial

/-- The two creations. -/
theorem Evm.CountsStep.sat_create {args : EvmM Evm.CreateArgs} (hs : s.CountsStep config k)
    (hargs : Moves (Evm.Level config) args) (hcan : s.abandonsCreate B args = false) :
    ((args >>= fun a => Evm.opcodeCreateImpl B a.address a.value a.offset a.length) s).Sat
      (fun _ t => t.CountsStep config k) (fun _ t => t.CountsStep config k) fun _ => True := by
  refine hs.sat_bind hargs fun a t ha ht => ?_
  rw [opcodeCreateImpl_eq]
  refine ht.sat_bind (level_readCreate _ _) fun d u hd hu => hu.sat_openCreate ?_
  unfold Evm.abandonsCreate at hcan
  rw [bind_run, ha, Outcome.ok_andThen, hd] at hcan
  simpa [Outcome.okAnd] using hcan

section

variable [Platform]

theorem level_popCreate : Moves (Evm.Level config) (Evm.popCreate B) :=
  moves_bind moves_get fun _ => moves_ite (fun _ => moves_fail _) fun _ =>
    moves_bind (level_onLocals _) fun _ => moves_bind (level_onLocals _) fun _ =>
    moves_bind (level_onLocals _) fun _ => moves_bind (level_db _) fun _ =>
    moves_bind (level_onLocals _) fun _ => moves_pure _

theorem level_popCreate2 : Moves (Evm.Level config) Evm.popCreate2 :=
  moves_bind moves_get fun _ => moves_ite (fun _ => moves_fail _) fun _ =>
    moves_bind (level_onLocals _) fun _ => moves_bind (level_onLocals _) fun _ =>
    moves_bind (level_onLocals _) fun _ => moves_bind (level_onLocals _) fun _ =>
    moves_bind (level_onLocals _) fun _ => moves_pure _

/-! ## Every opcode -/

omit [Platform] in
theorem level_emit_storageAccess (index value : U256) :
    Moves (Evm.Level config) (Evm.emit (.storageAccess index value)) :=
  moves_modify fun s => level_storageAccess s index value

/-- **Every opcode keeps the count**, unless it announces a child that it cannot open. -/
theorem Evm.CountsStep.sat_opcode {op : Opcode} (hs : s.CountsStep config k)
    (hcan : s.abandons B op = false) :
    (op.run B s).Sat (fun _ t => t.CountsStep config k) (fun _ t => t.CountsStep config k)
      fun _ => True := by
  cases op with
  | loc op => exact hs.sat fun s => level_onLocals _ s
  | sys op =>
    cases op with
    | sload =>
      exact hs.sat (moves_bind (level_onLocals _) fun _ => moves_bind moves_get fun _ =>
        moves_bind (level_db _) fun _ => moves_bind (level_emit_storageAccess _ _) fun _ =>
        moves_bind (level_onLocals _) fun _ => moves_pure _)
    | sstore =>
      exact hs.sat (moves_bind moves_get fun _ => moves_ite (fun _ => moves_fail _) fun _ =>
        moves_bind (level_onLocals _) fun _ => moves_bind (level_onLocals _) fun _ =>
        moves_bind (level_emit_storageAccess _ _) fun _ => moves_bind (level_db _) fun _ =>
        moves_pure _)
    | create =>
      show (Evm.opcodeCreate B s).Sat _ _ _
      rw [opcodeCreate_eq]
      exact hs.sat_create level_popCreate hcan
    | create2 =>
      show (Evm.opcodeCreate2 B s).Sat _ _ _
      rw [opcodeCreate2_eq]
      exact hs.sat_create level_popCreate2 hcan
    | call => exact hs.sat_opcodeCall hcan
    | callcode => exact hs.sat_opcodeCallcode hcan
    | delegatecall => exact hs.sat_opcodeDelegatecall hcan
    | staticcall => exact hs.sat_opcodeStaticcall hcan
    | ret =>
      exact hs.sat (moves_bind (level_onLocals _) fun _ => moves_bind (level_onLocals _) fun _ =>
        moves_bind (level_onLocals _) fun _ => level_opcodeReturnImpl _)
    | revert =>
      exact hs.sat (moves_bind (level_onLocals _) fun _ => moves_bind (level_onLocals _) fun _ =>
        moves_bind (level_onLocals _) fun _ => level_opcodeRevertImpl _)
    | stop => exact hs.sat (level_leaveEmpty _ _)
    | selfdestruct =>
      exact hs.sat (moves_bind moves_get fun _ => moves_ite (fun _ => moves_fail _) fun _ =>
        moves_bind (level_onLocals _) fun _ => moves_bind (level_db _) fun _ =>
        moves_bind (level_db _) fun _ => moves_bind (level_db _) fun _ => level_leaveEmpty _ _)
    | retf =>
      refine hs.sat (moves_bind moves_get fun s => ?_)
      rcases s.frame.locals.returnStack with _ | ⟨ctx, rest⟩
      · exact moves_fail _
      · exact moves_bind (level_onLocals _) fun _ =>
          moves_ite (fun _ => moves_pure _) fun _ => moves_pure _

/-! ## Runs -/

omit [Platform] in
/-- The tracer is told of the step that begins. -/
theorem Evm.fetch_run (s : Evm) : (Evm.fetch s).Sat
    (fun opcode t => ∃ pc stack memory, t = s.traced (.beginStep opcode pc stack memory))
    (fun _ _ => False) fun _ => True := by
  unfold Evm.fetch
  rw [bind_run, get_run, Outcome.ok_andThen]
  dsimp only
  rcases getCode s.env s.frame.locals with f | code
  · trivial
  · exact ⟨_, _, _, rfl⟩

omit [Platform] in
theorem Evm.fetch_eq_ok {opcode : UInt8} (h : Evm.fetch s = .ok opcode t) :
    ∃ pc stack memory, t = s.traced (.beginStep opcode pc stack memory) := by
  have hrun := Evm.fetch_run s
  rw [h] at hrun
  exact hrun

omit [Platform] in
/-- **A step that begins** is logged with the length of the chain. -/
theorem Evm.Counts.fetch {opcode : UInt8} (hs : s.Counts config k)
    (h : Evm.fetch s = .ok opcode t) : t.CountsStep config k ∧ t.parents = s.parents ∧
      ∃ l, t.logger config = some l ∧
        l.logs.getLast?.map (·.depth) = some (s.parents.length + 1 + k) := by
  obtain ⟨l, hl, hdepth⟩ := hs
  obtain ⟨pc, stack, memory, rfl⟩ := Evm.fetch_eq_ok h
  obtain ⟨l', hl', hdepth', hlast⟩ := StructLogger.event_beginStep l opcode pc stack memory
  have hlogger : (s.traced (.beginStep opcode pc stack memory)).logger config = some l' := by
    rw [StructLogger.logger_traced, hl, Option.bind_some, hl']
    rfl
  refine ⟨⟨l', hlogger, hdepth'.trans hdepth, fun hnil => ?_⟩, rfl, l', hlogger,
    hlast.trans (congrArg some hdepth)⟩
  rw [hnil] at hlast
  cases hlast

/-- The next step announces a child that it cannot open. -/
def Session.abandons (B : AccountStorage) (x : Session) : Bool :=
  match x.progress with
  | .running s => (Evm.fetch s).okAnd fun opcode t => t.abandons B (tableOf x.isEof opcode)
  | _ => false

/-- The next step returns from the first function of a child, which stops the run inside of it. -/
def Session.stopsInside (x : Session) : Bool :=
  match x.progress with
  | .running s => x.returnsFromFirst && s.parents ≠ []
  | _ => false

/-- **The steps of an emulated run that keep the count.** -/
structure Session.Traceable (B : AccountStorage) (k : Session.Kind) (x : Session) : Prop where
  next : k = .next
  opens : x.abandons B = false
  leaves : x.stopsInside = false
  delivers : x.Deliverable

/-- The tracer counts the machines. -/
def Progress.Counted (config : TraceConfig) : Progress → Prop
  | .running s => s.Counts config 0
  | .failed _ s => s.CountsStep config 0
  | .exited _ s => s.Counts config 0 ∧ s.parents = []
  | .escaped _ _ => False
  | .panicked _ => True

omit [Platform] in
/-- **The end of a step** keeps the count. -/
theorem Evm.CountsStep.conclude {a : OpAction} (hs : s.CountsStep config 0)
    (hp : ∀ status t, Evm.conclude a s = .exited status t → t.parents = []) :
    (Evm.conclude a s).Counted config := by
  have htrace : (Evm.traceEndStep a s).CountsStep config 0 := by
    unfold Evm.traceEndStep
    split
    · exact hs
    · exact level_endStep s a.returned 0 hs
  unfold Evm.conclude at hp ⊢
  rcases hexit : a.exit? with _ | status
  · exact htrace.counts
  · rw [hexit] at hp
    exact ⟨htrace.counts, hp _ _ rfl⟩

theorem Progress.Lands.parents_of_exited {e : Ending} {O : CallEnv → Prop} {halts : Prop}
    {status : ExitStatus} (h : (Progress.exited status t).Lands B e O halts s)
    (hhalts : halts → s.parents = []) : t.parents = [] := by
  obtain ⟨-, ⟨m, hexit⟩ | ⟨hh, -, hwork⟩⟩ := h
  · exact hexit.parents
  · exact hwork.parents.trans (hhalts hh)

/-- **A step keeps the count.** -/
theorem Session.counted_after {x : Session} {kind : Session.Kind}
    (hx : x.progress.Counted config) (hroom : x.progress.Contained)
    (hk : x.Traceable B kind) : (x.after B kind).progress.Counted config := by
  obtain ⟨rfl, hopens, hleaves, hdelivers⟩ := hk
  obtain ⟨isEof, p⟩ := x
  cases p with
  | running s =>
    have hs : s.Counts config 0 := hx
    have hparents : ∀ status t, micro B isEof (.running s) = .exited status t → t.parents = [] := by
      intro status t ht
      rcases micro_running B isEof s with ⟨f, hf⟩ | ⟨op, hop, hl⟩
      · rw [hf] at ht
        cases ht
      · rw [ht] at hl
        refine hl.parents_of_exited fun hhalts => ?_
        simpa [Session.stopsInside, Session.returnsFromFirst, hop, hhalts] using hleaves
    show (micro B isEof (.running s)).Counted config
    rcases hfetch : Evm.fetch s with ⟨opcode, t⟩ | ⟨e, t⟩ | p
    · obtain ⟨ht, -⟩ := hs.fetch hfetch
      have hrun : Evm.runOpcode B isEof s = (tableOf isEof opcode).run B t := by
        rw [Evm.runOpcode, bind_run, hfetch]
        rfl
      have hcan : t.abandons B (tableOf isEof opcode) = false := by
        simpa [Session.abandons, hfetch, Outcome.okAnd] using hopens
      have hstep := ht.sat_opcode hcan
      rcases ho : (tableOf isEof opcode).run B t with ⟨a, u⟩ | ⟨e, u⟩ | p
      · rw [ho] at hstep
        rw [micro_of_ok (hrun.trans ho)] at hparents ⊢
        exact Evm.CountsStep.conclude hstep hparents
      · rw [ho] at hstep
        rw [micro_of_err (hrun.trans ho)]
        exact hstep
      · rw [micro_of_panic (hrun.trans ho)]
        trivial
    · have hrun := Evm.fetch_run s
      rw [hfetch] at hrun
      exact hrun.elim
    · have hrun : Evm.runOpcode B isEof s = .panic p := by
        rw [Evm.runOpcode, bind_run, hfetch]
        rfl
      rw [micro_of_panic hrun]
      trivial
  | failed err s =>
    have hcontained := Session.contained_after (B := B) (x := ⟨isEof, .failed err s⟩) (k := .next)
      hroom hdelivers
    have hparents : ∀ status t, micro B isEof (.failed err s) = .exited status t →
        t.parents = [] := by
      intro status t ht
      have hl : (micro B isEof (.failed err s)).Lands B .revert anyChild False s :=
        micro_failed B isEof err s
      rw [ht] at hl
      exact hl.parents_of_exited fun h => h.elim
    have hs : s.CountsStep config 0 := hx
    have hstep := hs.sat (level_opcodeRevertImpl (.fromSlice err.revertMessage))
    change (micro B isEof (.failed err s)).Contained at hcontained
    show (micro B isEof (.failed err s)).Counted config
    unfold micro at hcontained hparents ⊢
    dsimp only at hcontained hparents ⊢
    rcases ho : Evm.handleError err s with ⟨a, u⟩ | ⟨e, u⟩ | p
    · rw [ho] at hparents
      rw [show Evm.opcodeRevertImpl (.fromSlice err.revertMessage) s = .ok a u from ho] at hstep
      exact Evm.CountsStep.conclude hstep hparents
    · rw [ho] at hcontained
      exact hcontained.elim
    · trivial
  | _ => exact hx

/-- **Entering `execute`** announces the first machine. -/
theorem sat_enterVM (s : Evm) : (enterVM s).Sat
    (fun _ t => (s.traced (.beginVM s.env.context s.env.executionCode.toList)).Unseen t)
    (fun _ t => (s.traced (.beginVM s.env.context s.env.executionCode.toList)).Unseen t)
    fun _ => True := by
  unfold enterVM
  rw [bind_run, get_run, Outcome.ok_andThen]
  rcases getCode s.env s.frame.locals with f | code
  · trivial
  · change Outcome.Sat _ _ _ ((assertThat _ (Panic.fault .assertion) >>= _) s)
    rw [bind_run, assertThat]
    split
    · rw [pure_run, Outcome.ok_andThen, bind_run, Evm.emit, modify_run, Outcome.ok_andThen]
      exact moves_ite (fun _ => moves_bind (unseen_fallible _) fun _ =>
        moves_bind (unseen_dbStack _) fun _ => moves_pure _) (fun _ => moves_pure _)
        (s.traced (.beginVM s.env.context s.env.executionCode.toList))
    · trivial

/-- **The first machine is counted.** -/
theorem enter_counted (htracer : s.tracer = some []) (hparents : s.parents = []) :
    (enter s).Counted config := by
  have hbegun {t : Evm}
      (h : (s.traced (.beginVM s.env.context s.env.executionCode.toList)).Unseen t) :
      t.Counts config 0 := by
    refine ⟨{ StructLogger.new config with depth := 1 }, ?_, ?_⟩
    · rw [StructLogger.logger_congr h.tracer, StructLogger.logger_traced, Evm.logger, htracer]
      rfl
    · rw [h.parents]
      show 1 = s.parents.length + 1 + 0
      rw [hparents]
      rfl
  have hsat := sat_enterVM s
  have hrun := enterVM_run s
  unfold enter
  rcases henter : enterVM s with ⟨_ | status, t⟩ | ⟨e, t⟩ | p
  · rw [henter] at hsat
    exact hbegun hsat
  · rw [henter] at hsat
    exact ⟨hbegun hsat, hsat.parents.trans hparents⟩
  · rw [henter] at hrun
    exact hrun.elim
  · trivial

/-- The counter of the tracer is where it began, if the run has ended. -/
def Progress.Balanced (config : TraceConfig) : Progress → Prop
  | .exited _ s | .escaped _ s => (s.logger config).map (·.depth) = some 0
  | _ => True

/-- The state of a run that is cut in a child. -/
def Session.isInside (x : Session) : Bool :=
  match x.progress with
  | .running s => s.parents ≠ []
  | _ => false

/-- **The traced depth is the depth of the calls** — in every step that begins, behind steps none of
which announces a child that it cannot open, stops the run in a child or fails to deliver; and if
the run is not cut in a child, the counter ends where it began. -/
theorem traced_depth_is_call_depth {trx : Transaction} {origin : Address} {m : Machine}
    {b : ExecutorState} (hnew : Machine.new B trx origin (ExecutorState.new B) = .ok m b)
    (config : TraceConfig) :
    (∀ y s t opcode, Session.Run B (Session.Traceable B)
        (Session.enter ⟨m.frame, m.parents, b, some []⟩) y → y.progress = .running s →
      Evm.fetch s = .ok opcode t → ∃ l, t.logger config = some l ∧
        l.logs.getLast?.map (·.depth) = some (t.parents.length + 1)) ∧
    ∀ fuel limit p n, execute B fuel limit ⟨m.frame, m.parents, b, some []⟩ = some (p, n) →
      ∃ y, Session.Run B Session.Looping (Session.enter ⟨m.frame, m.parents, b, some []⟩) y ∧
        (p = y.progress.traceEnd ∨
          ∃ t, y.progress = .running t ∧ p = (Progress.exited .stepLimit t).traceEnd) ∧
        (Session.Run B (Session.Traceable B)
            (Session.enter ⟨m.frame, m.parents, b, some []⟩) y →
          y.isInside = false → p.Balanced config) := by
  obtain ⟨base, hfresh⟩ : ∃ base, Machine.Fresh B origin m base b := by
    simpa [hnew, Outcome.Sat] using Machine.new_run (B := B) trx origin
  have hparents : m.parents = [] := hfresh.parents
  have counted {y : Session} (hrun : Session.Run B (Session.Traceable B)
      (Session.enter ⟨m.frame, m.parents, b, some []⟩) y) :
      y.progress.Counted config ∧ y.progress.Contained := by
    induction hrun with
    | refl =>
      exact ⟨enter_counted rfl hparents, Session.Starts.contained ⟨m, b, some [], hnew, rfl⟩⟩
    | tail _ hstep ih =>
      obtain ⟨kind, hk, rfl⟩ := hstep
      exact ⟨Session.counted_after ih.1 ih.2 hk, Session.contained_after ih.2 hk.delivers⟩
  refine ⟨fun y s t opcode hrun hs hfetch => ?_, fun fuel limit p n hexecute => ?_⟩
  · have hcounted := (counted hrun).1
    rw [hs] at hcounted
    obtain ⟨-, hp, l, hl, hlast⟩ := Evm.Counts.fetch hcounted hfetch
    exact ⟨l, hl, hlast.trans (by rw [hp])⟩
  · obtain ⟨y, hlooping, hend⟩ := execute_run hexecute
    refine ⟨y, hlooping, hend, fun hrun hinside => ?_⟩
    have hcounted := (counted hrun).1
    rcases hend with rfl | ⟨t, ht, rfl⟩
    · rcases hy : y.progress with s | ⟨e, s⟩ | ⟨status, s⟩ | ⟨e, s⟩ | p <;> rw [hy] at hcounted
      · trivial
      · trivial
      · exact hcounted.1.endVM hcounted.2 status
      · exact hcounted.elim
      · trivial
    · rw [ht] at hcounted
      refine Evm.Counts.endVM hcounted ?_ .stepLimit
      simpa [Session.isInside, ht] using hinside

end

/-! ## A child that is announced only -/

/-- A test of `Traceable`. -/
def Session.traceable [Platform] (B : AccountStorage) (x : Session) : Bool :=
  !x.abandons B && !x.stopsInside && x.delivers

theorem Session.traceable_next [Platform] {x : Session} (h : x.traceable B = true) :
    x.Traceable B .next := by
  unfold Session.traceable at h
  obtain ⟨h, hdelivers⟩ := Bool.and_eq_true_iff.1 h
  obtain ⟨hopens, hleaves⟩ := Bool.and_eq_true_iff.1 h
  exact ⟨rfl, by simpa using hopens, by simpa using hleaves, deliverable_of_delivers hdelivers⟩

/-- A step begins in a child of the first machine. -/
def Session.beginsInChild (x : Session) : Bool :=
  match x.progress with
  | .running s => s.parents.length = 1 && (Evm.fetch s).okAnd fun _ _ => true
  | _ => false

theorem Session.exists_of_beginsInChild {x : Session} (h : x.beginsInChild = true) :
    ∃ s opcode t, x.progress = .running s ∧ Evm.fetch s = .ok opcode t ∧ s.parents.length = 1 := by
  unfold Session.beginsInChild at h
  rcases hx : x.progress with s | ⟨e, s⟩ | ⟨status, s⟩ | ⟨e, s⟩ | p <;> rw [hx] at h
  · obtain ⟨hparents, hfetch⟩ := Bool.and_eq_true_iff.1 h
    obtain ⟨opcode, t, hfetch, -⟩ := Outcome.exists_of_okAnd hfetch
    exact ⟨s, opcode, t, rfl, hfetch, of_decide_eq_true hparents⟩
  all_goals exact (Bool.false_ne_true h).elim

set_option maxRecDepth 10000 in
/-- The first step of a called contract is logged at the depth 2. -/
theorem traced_depth_is_call_depth_two : ∃ (_ : Platform) (B : AccountStorage) (m : Machine)
    (b : ExecutorState) (y : Session) (t : Evm) (l : StructLogger),
    Machine.new B (.callOf 0x100) 0x999 (ExecutorState.new B) = .ok m b ∧
      Session.Run B (Session.Traceable B) (Session.enter ⟨m.frame, m.parents, b, some []⟩) y ∧
      y.beginsInChild = true ∧ t.logger ⟨false, false, false, false⟩ = some l ∧
      l.logs.getLast?.map (·.depth) = some 2 := by
  let _ := Platform.bare
  let B := AccountStorage.holding fun a =>
    if a = 0x100 then callerCode else if a = 0x200 then invalidCode else []
  have hinside : (Machine.new B (.callOf 0x100) 0x999 (ExecutorState.new B)).okAnd fun m b =>
      ((Session.enter ⟨m.frame, m.parents, b, some []⟩).follow B (·.traceable B) 8).any
        (·.beginsInChild) := by
    decide +kernel
  obtain ⟨m, b, hnew, hinside⟩ := Outcome.exists_of_okAnd hinside
  obtain ⟨y, hy, hbegins⟩ := Option.any_eq_true _ _ |>.1 hinside
  have hrun : Session.Run B (Session.Traceable B)
      (Session.enter ⟨m.frame, m.parents, b, some []⟩) y :=
    Session.follow_run (fun x hx => Session.traceable_next hx) hy
  obtain ⟨s, opcode, t, hs, hfetch, hlen⟩ := Session.exists_of_beginsInChild hbegins
  obtain ⟨l, hl, hlast⟩ := (traced_depth_is_call_depth hnew ⟨false, false, false, false⟩).1 y s t
    opcode hrun hs hfetch
  obtain ⟨_, _, _, ht⟩ := Evm.fetch_eq_ok hfetch
  have hparents : t.parents.length = 1 := by
    rw [ht]
    exact hlen
  exact ⟨_, B, m, b, y, t, l, hnew, hrun, hbegins, hl, hlast.trans (by rw [hparents])⟩

/-- A contract that creates another one from two bytes, the magic of a container. -/
def magicCreatorCode : Bytes :=
  [0x61, 0xEF, 0x00, 0x5F, 0x52, 0x60, 0x02, 0x60, 0x1E, 0x5F, 0xF0, 0x00]

/-- The run has exited from the first machine, with a last step that was logged at the depth 2, and
with a counter of 1. -/
def Progress.offByOne (config : TraceConfig) : Progress → Bool
  | .exited _ s => s.parents = [] && (s.logger config).any fun l =>
      l.logs.getLast?.map (·.depth) = some 2 && l.depth = 1
  | _ => false

theorem Progress.exists_of_offByOne {p : Progress} (h : p.offByOne config = true) :
    ∃ status t l, p = .exited status t ∧ t.parents = [] ∧ t.logger config = some l ∧
      l.logs.getLast?.map (·.depth) = some 2 ∧ l.depth = 1 := by
  unfold Progress.offByOne at h
  rcases p with s | ⟨e, s⟩ | ⟨status, s⟩ | ⟨e, s⟩ | p
  case exited =>
    obtain ⟨hparents, hlogger⟩ := Bool.and_eq_true_iff.1 h
    obtain ⟨l, hl, hdepths⟩ := (Option.any_eq_true _ _).1 hlogger
    obtain ⟨hlast, hdepth⟩ := Bool.and_eq_true_iff.1 hdepths
    exact ⟨status, s, l, rfl, of_decide_eq_true hparents, hl, of_decide_eq_true hlast,
      of_decide_eq_true hdepth⟩
  all_goals exact (Bool.false_ne_true h).elim

set_option maxRecDepth 10000 in
/-- **A creator without a container may not create one**: its child was announced, and is counted to
the end. -/
theorem announced_child_is_counted : ∃ (_ : Platform) (B : AccountStorage) (m : Machine)
    (b : ExecutorState) (p : Progress) (n : ℕ),
    Machine.new B (.callOf 0x100) 0x999 (ExecutorState.new B) = .ok m b ∧
      execute B 30 25 ⟨m.frame, m.parents, b, some []⟩ = some (p, n) ∧
      (∃ status t l, p = .exited status t ∧ t.parents = [] ∧
        t.logger ⟨false, false, false, false⟩ = some l ∧
        l.logs.getLast?.map (·.depth) = some 2) ∧
      ¬p.Balanced ⟨false, false, false, false⟩ := by
  let _ := Platform.bare
  let B := AccountStorage.holding fun a =>
    if a = 0x100 then callerCode else if a = 0x200 then magicCreatorCode else []
  have hoff : (Machine.new B (.callOf 0x100) 0x999 (ExecutorState.new B)).okAnd fun m b =>
      (execute B 30 25 ⟨m.frame, m.parents, b, some []⟩).any fun e =>
        e.1.offByOne ⟨false, false, false, false⟩ := by
    decide +kernel
  obtain ⟨m, b, hnew, hoff⟩ := Outcome.exists_of_okAnd hoff
  obtain ⟨⟨p, n⟩, hexecute, hoff⟩ := Option.any_eq_true _ _ |>.1 hoff
  obtain ⟨status, t, l, rfl, hparents, hl, hlast, hdepth⟩ := Progress.exists_of_offByOne hoff
  refine ⟨_, B, m, b, _, n, hnew, hexecute, ⟨status, t, l, rfl, hparents, hl, hlast⟩, fun h => ?_⟩
  change (t.logger _).map (·.depth) = some 0 at h
  rw [hl, Option.map_some, hdepth] at h
  cases h

end NeonEvm
