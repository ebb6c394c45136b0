import NeonEvm.Evm.Advance

/-!
# Evm/Delivery — what the end of a frame hands to its caller

    RETURN, a precompile   data and 1, or the address of what was constructed
    REVERT, an error       data and 0, or 0
    STOP, SELFDESTRUCT     nothing and 1, or 0

A delivery runs on the locals of the caller as they were saved, when the snapshot has been taken
back.
-/

namespace NeonEvm

open Exec ExecutorState Chain

open Locals

section

variable {α : Type} {B : AccountStorage} {p : Frame} {ps : List Frame} {s t : Evm}
  {D : LocalM Unit → Prop} {Q : α → Evm → Prop} {E : Error → Evm → Prop}

/-- What `RETURN`, a precompile and an extension deliver. -/
def returnDelivery (env : CallEnv) (data : Buffer) : LocalM Unit :=
  Evm.deliverTo env.reason
    (do
      Evm.deliver data.toList (wordOfBool true)
      modify fun l => { l with returnData := data })
    (pushAddress env.context.contract)

/-- What `REVERT` and an error deliver. -/
def revertDelivery (env : CallEnv) (data : Buffer) : LocalM Unit := do
  Evm.deliverTo env.reason (Evm.deliver data.toList (wordOfBool false)) (pushWord 0)
  modify fun l => { l with returnData := data }

/-- What `STOP` and `SELFDESTRUCT` deliver. -/
def emptyDelivery (env : CallEnv) : LocalM Unit :=
  Evm.deliverTo env.reason (Evm.deliver [] (wordOfBool true)) (pushWord 0)

theorem stays_deliver {env : CallEnv} (bytes : Bytes) (word : U256) :
    Moves (Stays env) (Evm.deliver bytes word) :=
  moves_bind moves_get fun _ => moves_bind (stays_writeRange _ _) fun _ => stays_pushWord _

theorem stays_deliverTo {env : CallEnv} {reason : Reason} {call create : LocalM Unit}
    (hcall : Moves (Stays env) call) (hcreate : Moves (Stays env) create) :
    Moves (Stays env) (Evm.deliverTo reason call create) := by
  cases reason with
  | call => exact hcall
  | create => exact hcreate

theorem stays_setReturnData {env : CallEnv} (data : Buffer) :
    Moves (Stays env) (modify fun l => { l with returnData := data } : LocalM Unit) :=
  moves_modify fun _ => ⟨rfl, id, fun _ => rfl⟩

theorem stays_returnDelivery {env caller : CallEnv} {data : Buffer} :
    Moves (Stays caller) (returnDelivery env data) :=
  stays_deliverTo (moves_bind (stays_deliver _ _) fun _ => stays_setReturnData data)
    (stays_pushWord _)

theorem stays_revertDelivery {env caller : CallEnv} {data : Buffer} :
    Moves (Stays caller) (revertDelivery env data) :=
  moves_bind (stays_deliverTo (stays_deliver _ _) (stays_pushWord _)) fun _ =>
    stays_setReturnData data

theorem stays_emptyDelivery {env caller : CallEnv} : Moves (Stays caller) (emptyDelivery env) :=
  stays_deliverTo (stays_deliver _ _) (stays_pushWord _)

/-- The caller `p` over `ps` goes on in `t`, its locals `l`. -/
structure GoesOn (p : Frame) (ps : List Frame) (l : Locals) (t : Evm) : Prop where
  parents : t.parents = ps
  env : t.env = p.env
  locals : t.frame.locals = l

/-- The frame of `s` is current in `t`, where it was. -/
structure AtHome (s t : Evm) : Prop where
  env : t.env = s.env
  parents : t.parents = s.parents
  locals : Stays s.env s.frame.locals t.frame.locals

theorem AtHome.refl (s : Evm) : AtHome s s := ⟨rfl, rfl, .refl _ _⟩

theorem AtHome.trans {u : Evm} (h : AtHome s t) (h' : AtHome t u) : AtHome s u :=
  ⟨h'.env.trans h.env, h'.parents.trans h.parents, Trans.trans h.locals (h.env ▸ h'.locals)⟩

/-- A child of the kind `r` is open over its caller `p`, at its first byte. -/
structure ChildOf (p : Frame) (ps : List Frame) (r : Reason) (t : Evm) : Prop where
  parents : t.parents = p :: ps
  reason : t.env.reason = r
  locals : Stays t.env Locals.new t.frame.locals

theorem ChildOf.stays {u : Evm} {r : Reason} (h : ChildOf p ps r t) (hu : AtHome t u) :
    ChildOf p ps r u :=
  ⟨hu.parents.trans h.parents, (congrArg (·.reason) hu.env).trans h.reason,
    hu.env.symm ▸ Trans.trans h.locals hu.locals⟩

/-- **The frame of `s` ends** over `p` in one of the deliveries `D`, or fails while it is open. -/
def HandsOver (s : Evm) (p : Frame) (ps : List Frame) (D : LocalM Unit → Prop)
    (o : Outcome Panic Error Evm OpAction) : Prop :=
  o.Sat (fun a t => a = .continue ∧ ∃ x l, D x ∧ x p.locals = .ok () l ∧ GoesOn p ps l t)
    (fun e t => AtHome s t ∨ ∃ x l, D x ∧ x p.locals = .err e l ∧ GoesOn p ps l t)
    fun _ => True

theorem leave_handsOver {exit : OpAction} {status : ExitStatus} {returnData : Option Bytes}
    {delivery : Frame → LocalM Unit} (hs : s.parents = p :: ps) :
    HandsOver s p ps (· = delivery s.frame) (Evm.leave exit status returnData delivery s) := by
  simp only [Evm.leave, bind_run, get_run, Outcome.ok_andThen, hs, List.cons_ne_nil, if_false,
    Evm.emitEnd, Evm.emit, modify_run, Evm.join, Evm.onLocals, zoom]
  cases h : delivery s.frame p.locals with
  | ok a l => exact ⟨rfl, _, l, rfl, h, rfl, rfl, rfl⟩
  | err e l => exact .inr ⟨_, l, rfl, h, rfl, rfl, rfl⟩
  | panic f => trivial

theorem HandsOver.mono {D' : LocalM Unit → Prop} {o : Outcome Panic Error Evm OpAction}
    (h : HandsOver s p ps D o) (hD : ∀ x, D x → D' x) : HandsOver s p ps D' o :=
  Outcome.Sat.imp h (fun _ _ ⟨ha, x, l, hx, h⟩ => ⟨ha, x, l, hD x hx, h⟩)
    (fun _ _ h => h.imp_right fun ⟨x, l, hx, h⟩ => ⟨x, l, hD x hx, h⟩) fun _ h => h

/-- Running on the locals of the current frame, read off. -/
theorem sat_onLocals {x : LocalM α} (hx : ∀ a l, x s.frame.locals = .ok a l → Q a (s.setLocals l))
    (he : ∀ e l, x s.frame.locals = .err e l → E e (s.setLocals l)) :
    (Evm.onLocals x s).Sat Q E fun _ => True := by
  unfold Evm.onLocals zoom
  cases h : x s.frame.locals with
  | ok a l => exact hx a l h
  | err e l => exact he e l h
  | panic f => trivial

theorem sat_db {x : Db α} (hx : ∀ a b, x s.backend.toDatabase = .ok a b →
      Q a (s.setBackend (s.backend.setDatabase b)))
    (he : ∀ e b, E e (s.setBackend (s.backend.setDatabase b))) :
    (Evm.db x s).Sat Q E fun _ => True := by
  rw [db_run]
  cases h : x s.backend.toDatabase with
  | ok a b => exact hx a b h
  | err e b => exact he e b
  | panic f => trivial

theorem sat_fallible {x : Fallible α} (hx : ∀ a, Q a s) (he : ∀ e, E e s) :
    (Evm.fallible x s).Sat Q E fun _ => True := by
  unfold Evm.fallible zoom
  cases x () with
  | ok a _ => exact hx a
  | err e _ => exact he e
  | panic f => trivial

theorem sat_failIf {Q : Unit → Evm → Prop} {b : Bool} {e : Error} (hx : Q () s) (he : E e s) :
    ((failIf b e : EvmM Unit) s).Sat Q E fun _ => True := by
  cases b with
  | false => exact hx
  | true => exact he

theorem sat_dbStack {Q : Unit → Evm → Prop} {e : Ending} (hx : ∀ b, Q () (s.setBackend b)) :
    (Evm.dbStack e.takeBack s).Sat Q E fun _ => True := by
  unfold Evm.dbStack zoom
  cases h : e.takeBack s.backend with
  | ok a b => exact hx b
  | err err b => exact (e.takeBack_ne_err _ _ _ h).elim
  | panic f => trivial

/-- The frame of `s` stays open through `o`. -/
def StaysOpen (s : Evm) (o : Outcome Panic Error Evm α) : Prop :=
  o.Sat (fun _ t => AtHome s t) (fun _ t => AtHome s t) fun _ => True

theorem StaysOpen.trans {o : Outcome Panic Error Evm α} (h : StaysOpen t o) (ht : AtHome s t) :
    StaysOpen s o :=
  Outcome.Sat.imp h (fun _ _ h => ht.trans h) (fun _ _ h => ht.trans h) fun _ h => h

theorem HandsOver.trans {o : Outcome Panic Error Evm OpAction} (h : HandsOver t p ps D o)
    (ht : AtHome s t) : HandsOver s p ps D o :=
  Outcome.Sat.imp h (fun _ _ h => h) (fun _ _ h => h.imp_left fun h => ht.trans h) fun _ h => h

/-- What a frame does before its end. -/
theorem StaysOpen.handsOver_bind {x : EvmM α} {f : α → EvmM OpAction} (hx : StaysOpen s (x s))
    (hf : ∀ a t, AtHome s t → HandsOver t p ps D (f a t)) :
    HandsOver s p ps D ((x >>= f) s) :=
  (hx.imp (fun _ _ h => h) (fun _ _ h => .inl h) fun _ h => h).andThen
    fun a t ht => (hf a t ht).trans ht

theorem StaysOpen.bind {β : Type} {x : EvmM α} {f : α → EvmM β} (hx : StaysOpen s (x s))
    (hf : ∀ a t, StaysOpen t (f a t)) : StaysOpen s ((x >>= f) s) :=
  hx.andThen fun a t ht => (hf a t).trans ht

theorem staysOpen_onLocals {x : LocalM α} (hx : Moves (Stays s.env) x) :
    StaysOpen s (Evm.onLocals x s) := by
  have h := hx s.frame.locals
  refine sat_onLocals (fun a l hl => ⟨rfl, rfl, ?_⟩) fun e l hl => ⟨rfl, rfl, ?_⟩
  · rw [hl] at h
    exact h
  · rw [hl] at h
    exact h

theorem staysOpen_db (x : Db α) : StaysOpen s (Evm.db x s) :=
  sat_db (fun _ _ _ => ⟨rfl, rfl, .refl _ _⟩) fun _ _ => ⟨rfl, rfl, .refl _ _⟩

theorem staysOpen_fallible (x : Fallible α) : StaysOpen s (Evm.fallible x s) :=
  sat_fallible (fun _ => .refl s) fun _ => .refl s

theorem staysOpen_takeBack (e : Ending) : StaysOpen s (Evm.dbStack e.takeBack s) :=
  sat_dbStack fun _ => ⟨rfl, rfl, .refl _ _⟩

theorem staysOpen_failIf (b : Bool) (e : Error) : StaysOpen s ((failIf b e : EvmM Unit) s) :=
  sat_failIf (.refl s) (.refl s)

theorem staysOpen_emit (e : Event) : StaysOpen s (Evm.emit e s) := ⟨rfl, rfl, .refl _ _⟩

theorem staysOpen_pure (a : α) : StaysOpen s ((pure a : EvmM α) s) := .refl s

theorem staysOpen_takeSnapshot : StaysOpen s (Evm.takeSnapshot s) := ⟨rfl, rfl, .refl _ _⟩

theorem staysOpen_requireBalance (value : U256) : StaysOpen s (Evm.requireBalance B value s) := by
  unfold Evm.requireBalance
  simp only [bind_run, get_run, Outcome.ok_andThen]
  exact (staysOpen_db _).bind fun _ _ => staysOpen_failIf _ _

theorem handsOver_leaveEmpty {exit : OpAction} {status : ExitStatus} (hs : s.parents = p :: ps) :
    HandsOver s p ps (· = emptyDelivery s.env) (Evm.leaveEmpty exit status s) := by
  refine (staysOpen_takeBack .commit).handsOver_bind fun _ t ht => ?_
  have henv : t.frame.env = s.env := ht.env
  rw [← henv]
  exact @leave_handsOver p ps t exit status none (fun returned => emptyDelivery returned.env)
    (ht.parents.trans hs)

/-- The tail of `opcode_return_impl`. -/
theorem handsOver_commit {returnData : Buffer} (hs : s.parents = p :: ps) :
    HandsOver s p ps (· = returnDelivery s.env returnData) ((do
      Evm.dbStack ExecutorState.commitSnapshot
      Evm.leave (.ret returnData.toList) (.ret returnData.toList) (some returnData.toList)
        fun returned => returnDelivery returned.env returnData) s) := by
  refine (staysOpen_takeBack .commit).handsOver_bind fun _ t ht => ?_
  have henv : t.frame.env = s.env := ht.env
  rw [← henv]
  exact @leave_handsOver p ps t _ _ _ (fun returned => returnDelivery returned.env returnData)
    (ht.parents.trans hs)

theorem handsOver_opcodeReturnImpl [Platform] {data : Buffer} (hs : s.parents = p :: ps) :
    HandsOver s p ps (· = returnDelivery s.env data) (Evm.opcodeReturnImpl data s) := by
  unfold Evm.opcodeReturnImpl
  simp only [bind_run, get_run, Outcome.ok_andThen]
  by_cases hreason : s.env.reason = .create
  · rw [if_pos hreason]
    have hsame : ∀ returnData, returnDelivery s.env returnData = returnDelivery s.env data := by
      intro returnData
      rw [returnDelivery, returnDelivery, hreason]
      rfl
    have hstore : StaysOpen s (Evm.storeCode s.env.context.contract data s) :=
      (staysOpen_fallible _).bind fun _ _ => (staysOpen_db _).bind fun _ _ => staysOpen_pure _
    refine hstore.handsOver_bind fun returnData t ht => ?_
    rw [← hsame returnData, ← ht.env]
    exact handsOver_commit (ht.parents.trans hs)
  · rw [if_neg hreason]
    exact handsOver_commit hs

theorem handsOver_opcodeRevertImpl {data : Buffer} (hs : s.parents = p :: ps) :
    HandsOver s p ps (· = revertDelivery s.env data) (Evm.opcodeRevertImpl data s) := by
  refine (staysOpen_takeBack .revert).handsOver_bind fun _ t ht => ?_
  have henv : t.frame.env = s.env := ht.env
  rw [← henv]
  exact @leave_handsOver p ps t _ _ _ (fun returned => revertDelivery returned.env data)
    (ht.parents.trans hs)

theorem handsOver_opcodeStop (hs : s.parents = p :: ps) :
    HandsOver s p ps (· = emptyDelivery s.env) (Evm.opcodeStop s) := handsOver_leaveEmpty hs

theorem handsOver_opcodeSelfdestruct (hs : s.parents = p :: ps) :
    HandsOver s p ps (· = emptyDelivery s.env) (Evm.opcodeSelfdestruct B s) := by
  unfold Evm.opcodeSelfdestruct
  simp only [bind_run, get_run, Outcome.ok_andThen]
  by_cases hstatic : s.env.isStatic = true
  · rw [if_pos hstatic]
    exact .inl (.refl s)
  · rw [if_neg hstatic]
    refine (staysOpen_onLocals stays_popAddress).handsOver_bind fun _ t ht => ?_
    refine (staysOpen_db _).handsOver_bind fun _ u hu => ?_
    refine (staysOpen_db _).handsOver_bind fun _ v hv => ?_
    refine (staysOpen_db _).handsOver_bind fun _ w hw => ?_
    have hsw : AtHome s w := ((ht.trans hu).trans hv).trans hw
    rw [← hsw.env]
    exact handsOver_leaveEmpty (hsw.parents.trans hs)

/-- The bytes that `RETURN` and `REVERT` take from the memory. -/
def readResult : LocalM Buffer := do
  let offset ← popUsize
  let length ← popUsize
  readBuffer offset length

theorem stays_readResult {E : CallEnv} : Moves (Stays E) readResult :=
  moves_bind stays_popUsize fun _ => moves_bind stays_popUsize fun _ => stays_readBuffer _ _

/-- One step on the locals after another. -/
theorem onLocals_bind {β : Type} (x : LocalM α) (f : α → LocalM β) :
    Evm.onLocals (x >>= f) = Evm.onLocals x >>= fun a => Evm.onLocals (f a) := by
  unfold Evm.onLocals
  refine zoom_bind ?_ ?_ x f
  · intro s l
    rfl
  · intro s l l'
    rfl

/-- The result is read in three steps. -/
theorem onLocals_readResult {impl : Buffer → EvmM OpAction} :
    (do
      let offset ← Evm.onLocals popUsize
      let length ← Evm.onLocals popUsize
      impl (← Evm.onLocals (readBuffer offset length))) = Evm.onLocals readResult >>= impl := by
  funext s
  simp only [readResult, onLocals_bind, bind_run, Outcome.andThen_assoc]
  refine congrArg _ (funext fun offset => funext fun t => ?_)
  simp only [bind_run, Outcome.andThen_assoc]

/-- The result is read, and the frame ends with it. -/
theorem handsOver_readResult {impl : Buffer → EvmM OpAction}
    {delivery : CallEnv → Buffer → LocalM Unit} (hs : s.parents = p :: ps)
    (himpl : ∀ data t, t.parents = p :: ps →
      HandsOver t p ps (· = delivery t.env data) (impl data t)) :
    HandsOver s p ps
      (fun x => ∃ data l, readResult s.frame.locals = .ok data l ∧ x = delivery s.env data)
      ((Evm.onLocals readResult >>= impl) s) := by
  have hread : (Evm.onLocals readResult s).Sat
      (fun data t => AtHome s t ∧ ∃ l, readResult s.frame.locals = .ok data l)
      (fun _ t => AtHome s t) fun _ => True := by
    have h := stays_readResult (E := s.env) s.frame.locals
    refine sat_onLocals (fun data l hl => ⟨⟨rfl, rfl, ?_⟩, l, hl⟩) fun e l hl => ⟨rfl, rfl, ?_⟩
    · rw [hl] at h
      exact h
    · rw [hl] at h
      exact h
  refine (hread.imp (fun _ _ h => h) (fun _ _ h => .inl h) fun _ h => h).andThen fun data t ht => ?_
  obtain ⟨ht, l, hl⟩ := ht
  refine ((himpl data t (ht.parents.trans hs)).mono fun x hx => ?_).trans ht
  exact ⟨data, l, hl, ht.env ▸ hx⟩

theorem handsOver_opcodeReturn [Platform] (hs : s.parents = p :: ps) :
    HandsOver s p ps
      (fun x => ∃ data l, readResult s.frame.locals = .ok data l ∧ x = returnDelivery s.env data)
      (Evm.opcodeReturn s) := by
  rw [Evm.opcodeReturn, onLocals_readResult]
  exact handsOver_readResult hs fun data t hps => handsOver_opcodeReturnImpl hps

theorem handsOver_opcodeRevert (hs : s.parents = p :: ps) :
    HandsOver s p ps
      (fun x => ∃ data l, readResult s.frame.locals = .ok data l ∧ x = revertDelivery s.env data)
      (Evm.opcodeRevert s) := by
  rw [Evm.opcodeRevert, onLocals_readResult]
  exact handsOver_readResult hs fun data t hps => handsOver_opcodeRevertImpl hps

end

end NeonEvm
