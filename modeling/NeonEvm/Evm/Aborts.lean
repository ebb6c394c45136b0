import NeonEvm.Evm.Endures
import NeonEvm.Evm.Hop
import NeonEvm.Evm.Stages

/-!
# Evm/Aborts — why a step aborts

    the code section of the frame is missing · CALLF of a function that is missing
    code whose container aborts the decoder · a native contract, or an extension, that aborts

Over a backend whose reads answer there is no other reason (`Session.aborts_iff`).
-/

namespace NeonEvm

open Exec ExecutorState Chain Locals

/-! ## The reasons -/

/-- The container of the code aborts its decoder. -/
def Undecodable (reason : Reason) (code : Buffer) : Prop :=
  ∃ f, containerOf reason code () = .panic f

section

variable [Platform] (B : AccountStorage)

/-- **What an opcode decodes**: the code of a callee, that of a constructor if the creator may run it,
or what a constructor returns. -/
inductive Evm.Decodes (s : Evm) : Opcode → Reason → Buffer → Prop
  | callee {op : SysOp} {withValue : Bool} {args : CallArgs} {t u : Evm} {d : Buffer × Buffer}
    (hop : op.callKind = some withValue) (hargs : onLocals (popCallArgs withValue) s = .ok args t)
    (hread : readCall B args t = .ok d u) : Decodes s (.sys op) .call d.2
  | initCode {op : Opcode} {x : EvmM CreateArgs} {args : CreateArgs} {t u : Evm}
    {d : Context × Buffer} {code : Buffer} {b : Database} (hop : popCreation B op = some x)
    (hargs : x s = .ok args t) (hread : readCreate B args.offset args.length t = .ok d u)
    (hcreator : ExecutorState.code B d.1.contract u.backend.toDatabase = .ok code b)
    (hmagic : hasEofMagic code = true) : Decodes s op .create d.2
  | returned {data : Buffer} {l : Locals} (hreason : s.env.reason = .create)
    (hread : readResult s.frame.locals = .ok data l) : Decodes s (.sys .ret) .create data

/-- **The reasons for which a step aborts.** -/
inductive Session.Aborts (x : Session) : Session.Kind → Prop
  | code {k : Session.Kind} {s : Evm} {f : Fault} (hs : x.progress = .running s)
    (h : getCode s.env s.frame.locals = .error f) : Aborts x k
  | function {s : Evm} (hb : x.Fetches opcode.CALLF s) (htable : x.isEof = true)
    (h : Evm.callsMissing s.env s.frame.locals = true) : Aborts x .next
  | container {b : UInt8} {s : Evm} {r : Reason} {code : Buffer} (hb : x.Fetches b s)
    (hcode : s.Decodes B (tableOf x.isEof b) r code) (h : Undecodable r code) : Aborts x .next
  | answer {b : UInt8} {s t : Evm} {y : EvmM Evm.CallArgs} {args : Evm.CallArgs} {z : EvmM Bytes}
    {p : Panic} (hb : x.Fetches b s) (hop : Evm.opening B (tableOf x.isEof b) = some y)
    (hargs : y s = .ok args t) (hz : Evm.answer B args.address t.env = some z)
    (h : z t = .panic p) : Aborts x .next
  | entered {s : Evm} {z : Fallible Bytes} {f : Fault} (hs : x.progress = .running s)
    (hz : precompile s.env.context.contract s.env.callData.toList = some z)
    (h : z () = .panic f) : Aborts x .resume
  | unloaded {s : Evm} {code : Buffer} (hs : x.progress = .running s)
    (hcode : getCode s.env s.frame.locals = .ok code)
    (h : (code.isInitialized && s.env.callData.isInitialized
      && s.frame.locals.returnData.isInitialized) = false) : Aborts x .resume

end

/-! ## Faults -/

/-- There is no abort. -/
def Unaborted {α : Type} (o : Outcome Panic Error Evm α) : Prop := ∀ p, o ≠ .panic p

/-- An abort is one of the bookkeeping of snapshots. -/
def Faultless {α : Type} (o : Outcome Panic Error Evm α) : Prop := ∀ f, o ≠ .panic (.fault f)

section

variable {α β : Type} {B : AccountStorage} {s t u : Evm} {x : EvmM α} {f : α → EvmM β}

theorem Unaborted.faultless {o : Outcome Panic Error Evm α} (h : Unaborted o) : Faultless o :=
  fun _ => h _

/-! ### Without an abort -/

theorem unaborted_ok (a : α) : Unaborted (.ok a s) := nofun

theorem unaborted_err (e : Error) : Unaborted (.err e s : Outcome Panic Error Evm α) := nofun

/-- **A sequence does not abort** if its parts do not, one after the other. -/
theorem unaborted_bind (hx : Unaborted (x s)) (hf : ∀ a t, x s = .ok a t → Unaborted (f a t)) :
    Unaborted ((x >>= f) s) := by
  rw [bind_run]
  cases h : x s with
  | ok a t => exact hf a t h
  | err e t => exact unaborted_err e
  | panic p => exact absurd h (hx p)

theorem unaborted_failIf (b : Bool) (e : Error) : Unaborted ((failIf b e : EvmM Unit) s) := by
  cases b with
  | false => exact unaborted_ok ()
  | true => exact unaborted_err e

theorem unaborted_onLocals {x : LocalM α} (hx : Calm x) : Unaborted (Evm.onLocals x s) := by
  have h := Outcome.survives_iff.1 (hx s.frame.locals)
  unfold Evm.onLocals zoom
  cases hc : x s.frame.locals with
  | panic p => exact absurd hc (h p)
  | ok a l => exact unaborted_ok a
  | err e l => exact unaborted_err e

theorem unaborted_db {x : Db α} (hx : Calm x) : Unaborted (Evm.db x s) := by
  have h := Outcome.survives_iff.1 (hx s.backend.toDatabase)
  rw [db_run]
  cases hc : x s.backend.toDatabase with
  | panic p => exact absurd hc (h p)
  | ok a l => exact unaborted_ok a
  | err e l => exact unaborted_err e

/-- The container is decoded, or the code aborts the decoder. -/
theorem unaborted_containerOf {reason : Reason} {code : Buffer} (h : ¬Undecodable reason code) :
    Unaborted (Evm.fallible (containerOf reason code) s) := by
  unfold Evm.fallible zoom
  cases hc : containerOf reason code () with
  | panic p => exact absurd ⟨p, hc⟩ h
  | ok a l => exact unaborted_ok a
  | err e l => exact unaborted_err e

theorem unaborted_fork {reason : Reason} {code : Buffer} (context : Context) (callData : Buffer)
    (gasLimit : Option U256) (h : ¬Undecodable reason code) :
    Unaborted (Evm.fork reason context code callData gasLimit s) :=
  unaborted_bind (unaborted_containerOf h) fun _ _ _ => unaborted_ok ()

theorem unaborted_requireBalance (hB : B.Answers) (value : U256) :
    Unaborted (Evm.requireBalance B value s) :=
  unaborted_bind (unaborted_ok s) fun _ _ _ => unaborted_bind (unaborted_db (calm_balance hB))
    fun _ _ _ => unaborted_failIf _ _

/-! ### Without a fault -/

theorem faultless_ok (a : α) : Faultless (.ok a s) := nofun

theorem faultless_err (e : Error) : Faultless (.err e s : Outcome Panic Error Evm α) := nofun

/-- **A sequence has no fault** if its parts have none, one after the other. -/
theorem faultless_bind (hx : Faultless (x s)) (hf : ∀ a t, x s = .ok a t → Faultless (f a t)) :
    Faultless ((x >>= f) s) := by
  rw [bind_run]
  cases h : x s with
  | ok a t => exact hf a t h
  | err e t => exact faultless_err e
  | panic p =>
    intro g hg
    exact hx g (by rw [h]; exact congrArg _ (Outcome.panic.inj hg))

theorem faultless_onLocals {x : LocalM α} (hx : Calm x) : Faultless (Evm.onLocals x s) :=
  (unaborted_onLocals hx).faultless

theorem faultless_db {x : Db α} (hx : Calm x) : Faultless (Evm.db x s) := (unaborted_db hx).faultless

theorem faultless_dbStack (e : Ending) : Faultless (Evm.dbStack e.takeBack s) := by
  have hp : ∀ f, e.takeBack s.backend ≠ .panic (.fault f) := by
    intro f
    cases e with
    | commit =>
      show commitSnapshot s.backend ≠ _
      unfold commitSnapshot
      split <;> simp
    | revert =>
      show revertSnapshot s.backend ≠ _
      unfold revertSnapshot
      split
      · simp
      · dsimp only
        split <;> simp
  unfold Evm.dbStack zoom
  cases hc : e.takeBack s.backend with
  | panic p =>
    intro f hf
    exact hp f (hc.trans (congrArg _ (Outcome.panic.inj hf)))
  | ok a l => exact faultless_ok a
  | err e l => exact faultless_err e

/-! ### The end of a frame -/

theorem calm_deliver (bytes : Bytes) (word : U256) : Calm (Evm.deliver bytes word) :=
  calm_bind calm_get fun _ => calm_bind (calm_onMemory _) fun _ => calm_pushWord _

theorem calm_deliverTo {reason : Reason} {call create : LocalM Unit} (hcall : Calm call)
    (hcreate : Calm create) : Calm (Evm.deliverTo reason call create) := by
  cases reason with
  | call => exact hcall
  | create => exact hcreate

theorem calm_returnDelivery (env : CallEnv) (data : Buffer) : Calm (returnDelivery env data) :=
  calm_deliverTo (calm_bind (calm_deliver _ _) fun _ => calm_modify _) (calm_pushWord _)

theorem calm_revertDelivery (env : CallEnv) (data : Buffer) : Calm (revertDelivery env data) :=
  calm_bind (calm_deliverTo (calm_deliver _ _) (calm_pushWord _)) fun _ => calm_modify _

theorem calm_emptyDelivery (env : CallEnv) : Calm (emptyDelivery env) :=
  calm_deliverTo (calm_deliver _ _) (calm_pushWord _)

theorem faultless_leave {exit : OpAction} {status : ExitStatus} {returnData : Option Bytes}
    {delivery : Frame → LocalM Unit} (h : ∀ p, Calm (delivery p)) :
    Faultless (Evm.leave exit status returnData delivery s) := by
  simp only [Evm.leave, bind_run, get_run, Outcome.ok_andThen]
  cases hs : s.parents with
  | nil => exact faultless_ok exit
  | cons p ps =>
    simp only [List.cons_ne_nil, if_false, bind_run, Evm.emitEnd, Evm.emit, modify_run,
      Outcome.ok_andThen, Evm.join, hs]
    exact faultless_bind (faultless_onLocals (h _)) fun _ _ _ => faultless_ok _

theorem faultless_leaveEmpty (exit : OpAction) (status : ExitStatus) :
    Faultless (Evm.leaveEmpty exit status s) :=
  faultless_bind (faultless_dbStack .commit) fun _ _ _ =>
    faultless_leave fun p => calm_emptyDelivery p.env

theorem faultless_opcodeRevertImpl (data : Buffer) : Faultless (Evm.opcodeRevertImpl data s) :=
  faultless_bind (faultless_dbStack .revert) fun _ _ _ =>
    faultless_leave fun p => calm_revertDelivery p.env data

theorem calm_setCode (address : Address) (code : Buffer) : Calm (setCode address code) :=
  calm_bind (calm_failIf _ _) fun _ => calm_pushAction _

theorem faultless_opcodeReturnImpl [Platform] {data : Buffer}
    (h : s.env.reason = .create → ¬Undecodable .create data) :
    Faultless (Evm.opcodeReturnImpl data s) := by
  have finish {v : Buffer} {u : Evm} : Faultless ((do
      Evm.dbStack ExecutorState.commitSnapshot
      Evm.leave (.ret v.toList) (.ret v.toList) (some v.toList)
        fun returned => returnDelivery returned.env v : EvmM OpAction) u) :=
    faultless_bind (faultless_dbStack .commit) fun _ _ _ =>
      faultless_leave fun p => calm_returnDelivery p.env v
  by_cases hreason : s.env.reason = .create
  · have hrun : Evm.opcodeReturnImpl data s = (Evm.storeCode s.env.context.contract data >>= fun v => do
        Evm.dbStack ExecutorState.commitSnapshot
        Evm.leave (.ret v.toList) (.ret v.toList) (some v.toList)
          fun returned => returnDelivery returned.env v) s := by
      unfold Evm.opcodeReturnImpl
      rw [bind_run, get_run, Outcome.ok_andThen, if_pos hreason]
      rfl
    rw [hrun]
    refine faultless_bind (faultless_bind (unaborted_containerOf (h hreason)).faultless
      fun _ _ _ => ?_) fun _ _ _ => finish
    exact faultless_bind (faultless_db (calm_setCode _ _)) fun _ _ _ => faultless_ok _
  · have hrun : Evm.opcodeReturnImpl data s = (do
        Evm.dbStack ExecutorState.commitSnapshot
        Evm.leave (.ret data.toList) (.ret data.toList) (some data.toList)
          fun returned => returnDelivery returned.env data : EvmM OpAction) s := by
      unfold Evm.opcodeReturnImpl
      rw [bind_run, get_run, Outcome.ok_andThen, if_neg hreason]
      rfl
    rw [hrun]
    exact finish

/-! ## Opcodes -/

variable [Platform] {op : Opcode}

omit [Platform] in
theorem faultless_popCallArgs (withValue : Bool) :
    Faultless (Evm.onLocals (Evm.popCallArgs withValue) s) := by
  have rest (f : ℕ → ℕ → ℕ → ℕ → Evm.CallArgs) : Calm (do
      let argsOffset ← popUsize
      let argsLength ← popUsize
      let returnOffset ← popUsize
      let returnLength ← popUsize
      pure (f argsOffset argsLength returnOffset returnLength)) :=
    calm_bind calm_popUsize fun _ => calm_bind calm_popUsize fun _ =>
      calm_bind calm_popUsize fun _ => calm_bind calm_popUsize fun _ => calm_pure _
  refine faultless_onLocals (calm_bind calm_popWord fun _ => calm_bind calm_popAddress fun _ => ?_)
  cases withValue with
  | true => exact calm_bind calm_popWord fun _ => rest _
  | false => exact rest _

omit [Platform] in
theorem faultless_readCall (hB : B.Answers) (args : Evm.CallArgs) :
    Faultless (Evm.readCall B args s) :=
  faultless_bind (faultless_onLocals (calm_modify _)) fun _ _ _ =>
    faultless_bind (faultless_onLocals (calm_readBuffer _ _)) fun _ _ _ =>
    faultless_bind (faultless_db (calm_code hB)) fun _ _ _ => faultless_ok _

omit [Platform] in
/-- **The fork of a call** aborts only in the decoder. -/
theorem faultless_forkCall (hB : B.Answers) {args : Evm.CallArgs} (context : Context)
    (h : ∀ d u, Evm.readCall B args s = .ok d u → ¬Undecodable .call d.2) :
    Faultless (Evm.forkCall B args context s) := by
  rw [forkCall_eq]
  exact faultless_bind (faultless_readCall hB args) fun d u hd =>
    faultless_bind (faultless_ok ()) fun _ _ _ => (unaborted_fork _ _ _ (h d u hd)).faultless

/-- **A call opens its frame**, or fails. -/
theorem faultless_opening (hB : B.Answers) {y : EvmM Evm.CallArgs}
    (hy : Evm.opening B op = some y) (h : ∀ r c, s.Decodes B op r c → ¬Undecodable r c) :
    Faultless (y s) := by
  have fork {op : SysOp} {withValue : Bool} {args : Evm.CallArgs} {t : Evm}
      (h : ∀ r c, s.Decodes B (.sys op) r c → ¬Undecodable r c)
      (hop : op.callKind = some withValue)
      (hargs : Evm.onLocals (Evm.popCallArgs withValue) s = .ok args t) (context : Context) :
      Faultless (Evm.forkCall B args context t) :=
    faultless_forkCall hB context fun d u hd => h _ _ (.callee hop hargs hd)
  match op, hy, h with
  | .sys .call, hy, h =>
    obtain rfl := Option.some.inj hy
    exact faultless_bind (faultless_popCallArgs true) fun args t hargs =>
      faultless_bind (faultless_ok t) fun _ _ hget => faultless_bind
        ((get_eq_ok.1 hget).2 ▸ fork h rfl hargs _) fun _ _ _ =>
      faultless_bind (faultless_ok ()) fun _ u _ => faultless_bind (faultless_ok u) fun _ _ _ =>
      faultless_bind (unaborted_failIf _ _).faultless fun _ _ _ =>
      faultless_bind (unaborted_requireBalance hB _).faultless fun _ _ _ =>
      faultless_bind (faultless_db (calm_transfer hB _ _ _)) fun _ _ _ => faultless_ok _
  | .sys .callcode, hy, h =>
    obtain rfl := Option.some.inj hy
    exact faultless_bind (faultless_popCallArgs true) fun args t hargs =>
      faultless_bind (faultless_ok t) fun _ _ hget => faultless_bind
        ((get_eq_ok.1 hget).2 ▸ fork h rfl hargs _) fun _ _ _ =>
      faultless_bind (faultless_ok ()) fun _ _ _ =>
      faultless_bind (unaborted_requireBalance hB _).faultless fun _ _ _ => faultless_ok _
  | .sys .delegatecall, hy, h =>
    obtain rfl := Option.some.inj hy
    exact faultless_bind (faultless_popCallArgs false) fun args t hargs =>
      faultless_bind (faultless_ok t) fun _ _ hget => faultless_bind
        ((get_eq_ok.1 hget).2 ▸ fork h rfl hargs _) fun _ _ _ =>
      faultless_bind (faultless_ok ()) fun _ _ _ => faultless_ok _
  | .sys .staticcall, hy, h =>
    obtain rfl := Option.some.inj hy
    exact faultless_bind (faultless_popCallArgs false) fun args t hargs =>
      faultless_bind (faultless_ok t) fun _ _ hget => faultless_bind
        ((get_eq_ok.1 hget).2 ▸ fork h rfl hargs _) fun _ _ _ =>
      faultless_bind (faultless_ok ()) fun _ _ _ =>
      faultless_bind (faultless_ok ()) fun _ _ _ => faultless_ok _

omit [Platform] in
/-- The frame of a call answers to a call. -/
theorem reason_of_opening {y : EvmM Evm.CallArgs} {args : Evm.CallArgs}
    (hy : Evm.opening B op = some y) (h : y s = .ok args t) : t.env.reason = .call := by
  obtain ⟨o, withValue, rfl, hop⟩ := callKind_of_opening hy
  obtain ⟨l, -, hchild⟩ := openedBy_of_opening hop hy h
  exact hchild.reason

/-- **A call ends**, if what it decodes and what answers it do. -/
theorem faultless_call (hB : B.Answers) {y : EvmM Evm.CallArgs} (hy : Evm.opening B op = some y)
    (hdecodes : ∀ r c, s.Decodes B op r c → ¬Undecodable r c)
    (hanswers : ∀ args t z, y s = .ok args t → Evm.answer B args.address t.env = some z →
      Faultless (z t)) : Faultless (op.run B s) := by
  rw [run_opening hy]
  refine faultless_bind (faultless_opening hB hy hdecodes) fun args t hargs => ?_
  rw [opcodeCallPrecompileImpl_run]
  cases hz : Evm.answer B args.address t.env with
  | none => exact faultless_ok _
  | some z =>
    refine faultless_bind (hanswers args t z hargs hz) fun d u hd => ?_
    refine faultless_opcodeReturnImpl fun hreason => ?_
    have hframe : u.env.reason = t.env.reason := congrArg (·.env.reason) (answer_ok hz hd).1
    rw [hframe, reason_of_opening hy hargs] at hreason
    cases hreason

theorem unaborted_popCreation (hB : B.Answers) {x : EvmM Evm.CreateArgs}
    (hx : Evm.popCreation B op = some x) : Unaborted (x s) := by
  match op, hx with
  | .sys .create, hx =>
    obtain rfl := Option.some.inj hx
    refine unaborted_bind (unaborted_ok s) fun r t _ => ?_
    by_cases hstatic : r.env.isStatic = true
    · rw [if_pos hstatic]
      exact unaborted_err _
    · rw [if_neg hstatic]
      exact unaborted_bind (unaborted_onLocals calm_popWord) fun _ _ _ =>
        unaborted_bind (unaborted_onLocals calm_popUsize) fun _ _ _ =>
        unaborted_bind (unaborted_onLocals calm_popUsize) fun _ _ _ =>
        unaborted_bind (unaborted_db (calm_nonce hB)) fun _ _ _ =>
        unaborted_bind (unaborted_onLocals (calm_onMemory _)) fun _ _ _ => unaborted_ok _
  | .sys .create2, hx =>
    obtain rfl := Option.some.inj hx
    refine unaborted_bind (unaborted_ok s) fun r t _ => ?_
    by_cases hstatic : r.env.isStatic = true
    · rw [if_pos hstatic]
      exact unaborted_err _
    · rw [if_neg hstatic]
      exact unaborted_bind (unaborted_onLocals calm_popWord) fun _ _ _ =>
        unaborted_bind (unaborted_onLocals calm_popUsize) fun _ _ _ =>
        unaborted_bind (unaborted_onLocals calm_popUsize) fun _ _ _ =>
        unaborted_bind (unaborted_onLocals calm_popWord) fun _ _ _ =>
        unaborted_bind (unaborted_onLocals (calm_onMemory _)) fun _ _ _ => unaborted_ok _

omit [Platform] in
theorem unaborted_readCreate (hB : B.Answers) (offset length : ℕ) :
    Unaborted (Evm.readCreate B offset length s) :=
  unaborted_bind (unaborted_ok s) fun _ _ _ => unaborted_bind (unaborted_db (calm_nonce hB))
    fun _ _ _ => unaborted_bind (unaborted_failIf _ _) fun _ _ _ =>
    unaborted_bind (unaborted_db (calm_pushAction _)) fun _ _ _ =>
    unaborted_bind (unaborted_onLocals (calm_modify _)) fun _ _ _ =>
    unaborted_bind (unaborted_onLocals (calm_readBuffer _ _)) fun _ _ _ => unaborted_ok _

omit [Platform] in
/-- A legacy code has no container. -/
theorem hasEofMagic_of_undecodable {reason : Reason} {code : Buffer} (h : Undecodable reason code) :
    hasEofMagic code = true := by
  obtain ⟨f, hf⟩ := h
  unfold containerOf at hf
  cases hm : hasEofMagic code with
  | true => rfl
  | false =>
    rw [hm] at hf
    cases hf

omit [Platform] in
/-- **The fork of a creation** aborts only in the decoder, and if the creator may run the code. -/
theorem unaborted_openCreate (hB : B.Answers) {address : Address} {value : U256}
    {d : Context × Buffer} (h : ∀ c b, ExecutorState.code B d.1.contract s.backend.toDatabase = .ok c b →
      hasEofMagic c = true → ¬Undecodable .create d.2) :
    Unaborted (Evm.openCreate B address value d s) := by
  refine unaborted_bind (unaborted_ok ()) fun _ t ht => ?_
  have ht := modify_eq_ok.1 ht
  refine unaborted_bind (unaborted_db (calm_code hB)) fun c u hc => ?_
  refine unaborted_bind (unaborted_failIf _ _) fun _ v hv => ?_
  have hread : ∃ b, ExecutorState.code B d.1.contract s.backend.toDatabase = .ok c b := by
    rw [db_run, ← ht] at hc
    cases hcode : ExecutorState.code B d.1.contract s.backend.toDatabase with
    | ok c' b =>
      simp only [hcode] at hc
      exact ⟨b, by rw [(Outcome.ok.inj hc).1]⟩
    | err e b =>
      simp only [hcode] at hc
      cases hc
    | panic p =>
      simp only [hcode] at hc
      cases hc
  obtain ⟨b, hread⟩ := hread
  refine unaborted_bind (unaborted_fork _ _ _ fun hun => ?_) fun _ _ _ => ?_
  · refine h c b hread ?_ hun
    have hguard := (failIf_eq_ok.1 hv).1
    rw [hasEofMagic_of_undecodable hun, Bool.and_true] at hguard
    simpa using hguard
  · exact unaborted_bind (unaborted_ok ()) fun _ w _ => unaborted_bind (unaborted_ok w) fun _ _ _ =>
      unaborted_bind (unaborted_db (calm_nonce hB)) fun _ _ _ =>
      unaborted_bind (unaborted_failIf _ _) fun _ _ _ =>
      unaborted_bind (unaborted_db (calm_codeSize hB)) fun _ _ _ =>
      unaborted_bind (unaborted_failIf _ _) fun _ _ _ =>
      unaborted_bind (unaborted_requireBalance hB _) fun _ _ _ =>
      unaborted_bind (unaborted_db (calm_pushAction _)) fun _ _ _ =>
      unaborted_bind (unaborted_db (calm_transfer hB _ _ _)) fun _ _ _ => unaborted_ok _

theorem unaborted_creation (hB : B.Answers) {x : EvmM Evm.CreateArgs}
    (hx : Evm.popCreation B op = some x) (h : ∀ r c, s.Decodes B op r c → ¬Undecodable r c) :
    Unaborted (op.run B s) := by
  rw [run_popCreation hx]
  refine unaborted_bind (unaborted_popCreation hB hx) fun args t hargs => ?_
  rw [opcodeCreateImpl_eq]
  exact unaborted_bind (unaborted_readCreate hB _ _) fun d u hread =>
    unaborted_openCreate hB fun c b hcode hmagic => h _ _ (.initCode hx hargs hread hcode hmagic)

/-- **Every opcode of the system ends**, if what it decodes and what answers it do. -/
theorem faultless_sysOp (hB : B.Answers) {op : SysOp}
    (hdecodes : ∀ r c, s.Decodes B (.sys op) r c → ¬Undecodable r c)
    (hanswers : ∀ y args t z, Evm.opening B (.sys op) = some y → y s = .ok args t →
      Evm.answer B args.address t.env = some z → Faultless (z t)) :
    Faultless ((Opcode.sys op).run B s) := by
  have call {y : EvmM Evm.CallArgs} (hy : Evm.opening B (.sys op) = some y) :
      Faultless ((Opcode.sys op).run B s) :=
    faultless_call hB hy hdecodes fun args t z => hanswers y args t z hy
  cases op with
  | sload =>
    exact faultless_bind (faultless_onLocals calm_popWord) fun _ t _ =>
      faultless_bind (faultless_ok t) fun _ _ _ =>
      faultless_bind (faultless_db (calm_storage hB _)) fun _ _ _ =>
      faultless_bind (faultless_ok ()) fun _ _ _ =>
      faultless_bind (faultless_onLocals (calm_pushWord _)) fun _ _ _ => faultless_ok _
  | sstore =>
    refine faultless_bind (faultless_ok s) fun r t _ => ?_
    by_cases hstatic : r.env.isStatic = true
    · rw [if_pos hstatic]
      exact faultless_err _
    · rw [if_neg hstatic]
      exact faultless_bind (faultless_onLocals calm_popWord) fun _ _ _ =>
        faultless_bind (faultless_onLocals calm_popWord) fun _ _ _ =>
        faultless_bind (faultless_ok ()) fun _ _ _ =>
        faultless_bind (faultless_db (calm_pushAction _)) fun _ _ _ => faultless_ok _
  | create => exact (unaborted_creation hB rfl hdecodes).faultless
  | create2 => exact (unaborted_creation hB rfl hdecodes).faultless
  | call => exact call rfl
  | callcode => exact call rfl
  | delegatecall => exact call rfl
  | staticcall => exact call rfl
  | ret =>
    show Faultless (Evm.opcodeReturn s)
    rw [Evm.opcodeReturn, onLocals_readResult]
    have hread : Calm readResult := calm_bind calm_popUsize fun _ =>
      calm_bind calm_popUsize fun _ => calm_readBuffer _ _
    refine faultless_bind (faultless_onLocals hread) fun data t ht => ?_
    obtain ⟨l, hl, rfl⟩ := zoom_eq_ok.1 ht
    exact faultless_opcodeReturnImpl fun hreason => hdecodes _ _ (.returned hreason hl)
  | revert =>
    exact faultless_bind (faultless_onLocals calm_popUsize) fun _ _ _ =>
      faultless_bind (faultless_onLocals calm_popUsize) fun _ _ _ =>
      faultless_bind (faultless_onLocals (calm_readBuffer _ _)) fun _ _ _ =>
      faultless_opcodeRevertImpl _
  | stop => exact faultless_leaveEmpty _ _
  | selfdestruct =>
    refine faultless_bind (faultless_ok s) fun r t _ => ?_
    by_cases hstatic : r.env.isStatic = true
    · rw [if_pos hstatic]
      exact faultless_err _
    · rw [if_neg hstatic]
      exact faultless_bind (faultless_onLocals calm_popAddress) fun _ _ _ =>
        faultless_bind (faultless_db (calm_balance hB)) fun _ _ _ =>
        faultless_bind (faultless_db (calm_transfer hB _ _ _)) fun _ _ _ =>
        faultless_bind (faultless_db (calm_pushAction _)) fun _ _ _ => faultless_leaveEmpty _ _
  | retf =>
    refine faultless_bind (faultless_ok s) fun r t _ => ?_
    cases r.frame.locals.returnStack with
    | nil => exact faultless_err _
    | cons ctx rest =>
      refine faultless_bind (faultless_onLocals (calm_modify _)) fun _ _ _ => ?_
      by_cases hrest : rest = []
      · rw [if_pos hrest]
        exact faultless_ok _
      · rw [if_neg hrest]
        exact faultless_ok _

/-- **An opcode of a frame** that survives. -/
theorem faultless_run_loc {op : LocalOp}
    (h : (op ⟨B, s.env, s.backend.toDatabase⟩ s.frame.locals).Survives fun _ _ => True) :
    Faultless ((Opcode.loc op).run B s) := by
  have hne := Outcome.survives_iff.1 h
  show Faultless (Evm.onLocals _ s)
  unfold Evm.onLocals zoom
  rw [bind_run]
  cases hc : op ⟨B, s.env, s.backend.toDatabase⟩ s.frame.locals with
  | panic p => exact absurd hc (hne p)
  | ok a l => exact faultless_ok _
  | err e l => exact faultless_err e

/-! ## Steps -/

variable {x : Session} {k : Session.Kind} {origin : Address}

/-- **A step that aborts** does so for one of the reasons. -/
theorem Session.aborts_of_panicked (hB : B.Answers) (hx : x.progress.Matched origin)
    (hs : x.progress = .running s) {p : Panic} (h : (x.after B k).progress = .panicked p) :
    x.Aborts B k := by
  obtain ⟨isEof, pr⟩ := x
  obtain rfl : pr = .running s := hs
  cases k with
  | resume =>
    cases hcode : getCode s.env s.frame.locals with
    | error f => exact .code rfl hcode
    | ok code =>
      cases hloaded : code.isInitialized && s.env.callData.isInitialized
          && s.frame.locals.returnData.isInitialized with
      | false => exact .unloaded rfl hcode hloaded
      | true =>
        have hrun := enterVM_run s
        change NeonEvm.enter s = .panicked p at h
        unfold NeonEvm.enter at h
        cases hv : enterVM s with
        | ok o t =>
          rw [hv] at h
          cases o <;> cases h
        | err e t =>
          rw [hv] at h
          cases h
        | panic q =>
          rw [hv] at hrun
          rcases hrun with ⟨f, rfl⟩ | ⟨-, hcommit⟩
          · unfold enterVM at hv
            simp only [bind_run, get_run, Outcome.ok_andThen, hcode, assertThat, hloaded, if_true,
              pure_run, Evm.emit, modify_run] at hv
            by_cases hp : isPrecompileAddress s.env.context.contract = true
            · rw [if_pos hp, bind_run, Evm.fallible, zoom] at hv
              obtain ⟨z, hz⟩ := Option.isSome_iff_exists.1
                ((isSome_precompile s.env.context.contract s.env.callData.toList).trans hp)
              rw [hz, Option.getD_some] at hv
              cases hzrun : z () with
              | panic g => exact .entered rfl hz hzrun
              | err e u => exact absurd hzrun (precompile_ne_err hz e)
              | ok v u =>
                simp only [hzrun, Outcome.ok_andThen] at hv
                exact absurd hv (faultless_bind (faultless_dbStack .commit)
                  (fun _ _ _ => faultless_ok _) f)
            · rw [if_neg hp] at hv
              cases hv
          · have habove : Above [.evmIncrementNonce origin] [1] 0 s.chain := hx
            exact absurd hcommit (habove.takeBack_ne_panic .commit fun _ => rfl)
  | next =>
    change micro B isEof (.running s) = .panicked p at h
    rcases Evm.fetch_cases s with ⟨f, hf, -⟩ | ⟨b, t, hb⟩
    · exact .code rfl hf
    · have hlands := micro_running B isEof s
      obtain ⟨f, rfl⟩ : ∃ f, p = .fault f := by
        rcases hlands with ⟨f, hf⟩ | ⟨op, -, hl⟩
        · exact ⟨f, Progress.panicked.inj (h.symm.trans hf)⟩
        · rw [h] at hl
          rcases hl with hf | ⟨m, hw, hp⟩
          · exact hf
          · exact absurd hp ((hw.above hx).takeBack_ne_panic _ fun _ => rfl)
      have hrun : (tableOf isEof b).run B t = .panic (.fault f) := by
        simp only [micro, Evm.runOpcode, bind_run, hb, Outcome.ok_andThen] at h
        cases ho : (tableOf isEof b).run B t with
        | panic q =>
          rw [ho] at h
          rw [Progress.panicked.inj h]
        | ok a u =>
          rw [ho] at h
          dsimp only at h
          unfold Evm.conclude at h
          cases ha : a.exit? <;> rw [ha] at h <;> cases h
        | err e u =>
          rw [ho] at h
          cases h
      obtain ⟨code, hcode, hbyte, hframe, -⟩ := Evm.fetch_ok hb
      have hfetches : Session.Fetches ⟨isEof, .running s⟩ b t := ⟨s, rfl, hb⟩
      cases hop : tableOf isEof b with
      | loc op =>
        rw [hop] at hrun
        by_contra hnot
        have hcalls (hb' : b = opcode.CALLF) (htable : isEof = true) :
            Evm.callsMissing t.env t.frame.locals = false := by
          refine Bool.eq_false_of_not_eq_true fun hmissing => hnot ?_
          exact .function (hb' ▸ hfetches) htable hmissing
        have hsurvives := survives_tableOf (c := ⟨B, t.env, t.backend.toDatabase⟩)
          (l := t.frame.locals) hop hB (by rw [Evm.env, hframe]; exact hcode)
          (by rw [hframe]; exact hbyte.symm) hcalls
        exact faultless_run_loc hsurvives f hrun
      | sys op =>
        by_contra hnot
        refine faultless_sysOp hB (fun r c hd hun => ?_) (fun y args u z hy hargs hz g hg => ?_) f
          (hop ▸ hrun)
        · exact hnot (.container hfetches (hop ▸ hd) hun)
        · exact hnot (.answer hfetches (hop ▸ hy) hargs hz hg)

/-- **A creation aborts** only in the decoder. -/
theorem Session.creation_aborts (hB : B.Answers) {b : UInt8} (hb : x.Fetches b s)
    {y : EvmM Evm.CreateArgs} (hop : Evm.popCreation B (tableOf x.isEof b) = some y) {p : Panic}
    (h : (tableOf x.isEof b).run B s = .panic p) : x.Aborts B .next := by
  by_contra hnot
  exact unaborted_creation hB hop (fun r c hd hun => hnot (.container hb hd hun)) p h

/-! ## Each reason aborts -/

/-- The outcome is an abort. -/
def Aborting {α : Type} (o : Outcome Panic Error Evm α) : Prop := ∃ p, o = .panic p

section

variable {α β : Type} {y : EvmM α} {f : α → EvmM β}

omit [Platform]

theorem aborting_bind (h : Aborting (y s)) : Aborting ((y >>= f) s) := by
  obtain ⟨p, hp⟩ := h
  exact ⟨p, by rw [bind_run, hp]; rfl⟩

/-- What comes next aborts. -/
theorem aborting_next {a : α} (hy : y s = .ok a t) (h : Aborting (f a t)) :
    Aborting ((y >>= f) s) := by
  rw [bind_run, hy]
  exact h

theorem aborting_containerOf {reason : Reason} {code : Buffer} (h : Undecodable reason code) :
    Aborting (Evm.fallible (containerOf reason code) s) := by
  obtain ⟨g, hg⟩ := h
  exact ⟨.fault g, by rw [Evm.fallible, zoom, hg]⟩

theorem aborting_fork {reason : Reason} {code : Buffer} {context : Context} {callData : Buffer}
    {gasLimit : Option U256} (h : Undecodable reason code) :
    Aborting (Evm.fork reason context code callData gasLimit s) :=
  aborting_bind (aborting_containerOf h)

theorem aborting_forkCall {args : Evm.CallArgs} {context : Context} {d : Buffer × Buffer}
    (hread : Evm.readCall B args s = .ok d t) (h : Undecodable .call d.2) :
    Aborting (Evm.forkCall B args context s) := by
  rw [forkCall_eq]
  exact aborting_next hread (aborting_next rfl (aborting_fork h))

end

theorem aborting_callee {op : SysOp} {withValue : Bool} {args : Evm.CallArgs}
    {d : Buffer × Buffer} (hop : op.callKind = some withValue)
    (hargs : Evm.onLocals (Evm.popCallArgs withValue) s = .ok args t)
    (hread : Evm.readCall B args t = .ok d u) (h : Undecodable .call d.2) :
    Aborting ((Opcode.sys op).run B s) := by
  have fork {context : Context} : Aborting (Evm.forkCall B args context t) :=
    aborting_forkCall hread h
  obtain ⟨y, hy, hab⟩ : ∃ y, Evm.opening B (.sys op) = some y ∧ Aborting (y s) := by
    match op, hop with
    | .call, hop =>
      obtain rfl := Option.some.inj hop
      exact ⟨_, rfl, aborting_next hargs (aborting_next rfl (aborting_bind fork))⟩
    | .callcode, hop =>
      obtain rfl := Option.some.inj hop
      exact ⟨_, rfl, aborting_next hargs (aborting_next rfl (aborting_bind fork))⟩
    | .delegatecall, hop =>
      obtain rfl := Option.some.inj hop
      exact ⟨_, rfl, aborting_next hargs (aborting_next rfl (aborting_bind fork))⟩
    | .staticcall, hop =>
      obtain rfl := Option.some.inj hop
      exact ⟨_, rfl, aborting_next hargs (aborting_next rfl (aborting_bind fork))⟩
  rw [run_opening hy]
  exact aborting_bind hab

theorem aborting_initCode {y : EvmM Evm.CreateArgs} {args : Evm.CreateArgs}
    {d : Context × Buffer} {code : Buffer} {b : Database} (hop : Evm.popCreation B op = some y)
    (hargs : y s = .ok args t) (hread : Evm.readCreate B args.offset args.length t = .ok d u)
    (hcreator : ExecutorState.code B d.1.contract u.backend.toDatabase = .ok code b)
    (hmagic : hasEofMagic code = true) (h : Undecodable .create d.2) :
    Aborting (op.run B s) := by
  rw [run_popCreation hop]
  refine aborting_next hargs ?_
  rw [opcodeCreateImpl_eq]
  refine aborting_next hread (aborting_next rfl ?_)
  have hcode (tracer : Option (List Event)) :
      Evm.db (ExecutorState.code B d.1.contract) { u with tracer := tracer } = .ok code
        (Evm.setBackend { u with tracer := tracer } (u.backend.setDatabase b)) := by
    rw [db_run, hcreator]
  refine aborting_next (hcode _) ?_
  dsimp only
  rw [hmagic]
  exact aborting_next rfl (aborting_bind (aborting_fork h))

/-- **What an opcode decodes aborts it.** -/
theorem aborting_decodes {reason : Reason} {code : Buffer} (hd : s.Decodes B op reason code)
    (h : Undecodable reason code) : Aborting (op.run B s) := by
  cases hd with
  | callee hop hargs hread => exact aborting_callee hop hargs hread h
  | initCode hop hargs hread hcreator hmagic =>
    exact aborting_initCode hop hargs hread hcreator hmagic h
  | @returned _ l hreason hread =>
    show Aborting (Evm.opcodeReturn s)
    rw [Evm.opcodeReturn, onLocals_readResult]
    have hzoom : Evm.onLocals readResult s = .ok code (s.setLocals l) := by
      rw [Evm.onLocals, zoom, hread]
    refine aborting_next hzoom ?_
    unfold Evm.opcodeReturnImpl
    refine aborting_next rfl ?_
    have hset : (s.setLocals l).env.reason = .create := hreason
    dsimp only
    rw [if_pos hset]
    exact aborting_bind (aborting_bind (aborting_containerOf h))

/-- **`CALLF` of a function that is missing** aborts. -/
theorem aborting_callf {code : Buffer} (hcode : getCode s.env s.frame.locals = .ok code)
    (h : Evm.callsMissing s.env s.frame.locals = true) :
    Aborting ((tableOf true opcode.CALLF).run B s) := by
  unfold Evm.callsMissing at h
  rw [hcode] at h
  cases hcontainer : s.env.container with
  | none =>
    rw [hcontainer] at h
    cases h
  | some container =>
    rw [hcontainer] at h
    have hnone : container.types[code.getU16OrDefault (s.frame.locals.pc + 1)]? = none :=
      List.getElem?_eq_none (of_decide_eq_true h)
    have hop : opcodeCallf ⟨B, s.env, s.backend.toDatabase⟩ s.frame.locals = .panic .index := by
      simp only [opcodeCallf, runningCode, bind_run, get_run, Outcome.ok_andThen, hcode, hcontainer,
        hnone]
      rfl
    refine ⟨.fault .index, ?_⟩
    show Evm.onLocals _ s = _
    rw [Evm.onLocals, zoom, bind_run, hop]
    rfl

/-- **Entering aborts** if code that is there and loaded belongs to a native contract that aborts. -/
theorem aborting_enterVM (h : ∀ code, getCode s.env s.frame.locals = .ok code →
    (code.isInitialized && s.env.callData.isInitialized
      && s.frame.locals.returnData.isInitialized) = true →
    ∃ z f, precompile s.env.context.contract s.env.callData.toList = some z ∧ z () = .panic f) :
    Aborting (enterVM s) := by
  unfold enterVM
  refine aborting_next rfl ?_
  cases hcode : getCode s.env s.frame.locals with
  | error f => exact ⟨.fault f, rfl⟩
  | ok code =>
    dsimp only
    cases hloaded : code.isInitialized && s.env.callData.isInitialized
        && s.frame.locals.returnData.isInitialized with
    | false => exact aborting_bind ⟨_, rfl⟩
    | true =>
      obtain ⟨z, f, hz, hf⟩ := h code hcode hloaded
      have hnative : isPrecompileAddress s.env.context.contract = true :=
        (isSome_precompile s.env.context.contract s.env.callData.toList).symm.trans
          (Option.isSome_iff_exists.2 ⟨z, hz⟩)
      refine aborting_next rfl (aborting_next rfl ?_)
      rw [if_pos hnative, hz]
      exact aborting_bind ⟨.fault f, by rw [Evm.fallible, zoom, Option.getD_some, hf]⟩

/-- **Each of the reasons** aborts the step. -/
theorem Session.Aborts.panicked (h : x.Aborts B k) : ∃ p, (x.after B k).progress = .panicked p := by
  have fetched {b : UInt8} {s : Evm} (hb : x.Fetches b s)
      (hab : Aborting ((tableOf x.isEof b).run B s)) :
      ∃ p, (x.after B .next).progress = .panicked p := by
    obtain ⟨r, hr, hfetch⟩ := hb
    obtain ⟨p, hp⟩ := hab
    refine ⟨p, ?_⟩
    show micro B x.isEof x.progress = _
    rw [hr]
    exact micro_of_panic (by rw [Evm.runOpcode, bind_run, hfetch, Outcome.ok_andThen, hp])
  have entered {s : Evm} (hs : x.progress = .running s) (hab : Aborting (enterVM s)) :
      ∃ p, (x.after B .resume).progress = .panicked p := by
    obtain ⟨p, hp⟩ := hab
    refine ⟨p, ?_⟩
    unfold Session.after
    rw [hs]
    show NeonEvm.enter s = _
    rw [NeonEvm.enter, hp]
  cases h with
  | @code k s f hs hcode =>
    cases k with
    | next =>
      refine ⟨.fault f, ?_⟩
      show micro B x.isEof x.progress = _
      rw [hs]
      refine micro_of_panic ?_
      simp only [Evm.runOpcode, Evm.fetch, bind_run, get_run, Outcome.ok_andThen, hcode]
      rfl
    | resume =>
      refine entered hs (aborting_enterVM fun code hcode' => ?_)
      rw [hcode] at hcode'
      cases hcode'
  | function hb htable hmissing =>
    obtain ⟨r, hr, hfetch⟩ := hb
    obtain ⟨code, hcode, -, hframe, -⟩ := Evm.fetch_ok hfetch
    refine fetched ⟨r, hr, hfetch⟩ ?_
    rw [htable]
    exact aborting_callf (by rw [Evm.env, hframe]; exact hcode) hmissing
  | container hb hdecodes hun => exact fetched hb (aborting_decodes hdecodes hun)
  | answer hb hop hargs hz hpanic =>
    refine fetched hb ?_
    rw [run_opening hop]
    refine aborting_next hargs ?_
    rw [opcodeCallPrecompileImpl_run, hz]
    exact aborting_bind ⟨_, hpanic⟩
  | entered hs hz hpanic => exact entered hs (aborting_enterVM fun _ _ _ => ⟨_, _, hz, hpanic⟩)
  | unloaded hs hcode hfalse =>
    refine entered hs (aborting_enterVM fun code hcode' htrue => ?_)
    obtain rfl : _ = code := Except.ok.inj (hcode.symm.trans hcode')
    exact absurd htrue (by rw [hfalse]; exact Bool.false_ne_true)

/-- **A step aborts exactly for these reasons**, over a backend whose reads answer. -/
theorem Session.aborts_iff (hB : B.Answers) (hx : x.progress.Matched origin)
    (hs : x.progress = .running s) :
    x.Aborts B k ↔ ∃ p, (x.after B k).progress = .panicked p :=
  ⟨Session.Aborts.panicked, fun ⟨_, h⟩ => Session.aborts_of_panicked hB hx hs h⟩

end

end NeonEvm
