import NeonEvm.Evm.Opening

/-!
# Evm/Hop — one step of a session, seen from its frames

    stay     the same frame, behind its opcode or where it jumps
    enter    a child at its first byte, over the frame at its opcode
    leave    the caller, behind its opcode

Which frames wait, and where the current one is, is all that a step changes about the positions in
code.
-/

namespace NeonEvm

open Exec ExecutorState Chain Locals

/-! ## The byte that comes next -/

/-- The byte at the program counter. -/
def Evm.byteAt (s : Evm) : Option UInt8 :=
  match getCode s.env s.frame.locals with
  | .ok code => some (code.getOrDefault s.frame.locals.pc)
  | .error _ => none

/-- Where a frame goes on after an action. -/
def LocalAction.position (l : Locals) : LocalAction → ℕ
  | .continue => l.pc + 1
  | .jump target => target
  | .codeSection _ pc => pc

/-- The frame of `s` goes on in `t`, its program counter moved. -/
structure Evm.Proceeds (s : Evm) (pc : ℕ) (t : Evm) : Prop where
  env : t.env = s.env
  parents : t.parents = s.parents
  locals : Stays s.env { s.frame.locals with pc := pc } t.frame.locals

/-- **The frame of `s` goes on in `t`**, where its opcode says or where its function returns to. -/
inductive Evm.Onward (s t : Evm) : Prop
  | opcode {b : UInt8} {a : LocalAction} (hb : s.byteAt = some b)
    (ha : GoesTo b s.env s.frame.locals a) (ht : s.Proceeds (a.position s.frame.locals) t)
  | retf (hreturns : 1 < s.frame.locals.returnStack.length) (henv : t.env = s.env)
    (hparents : t.parents = s.parents) (hmemory : s.frame.locals.memory.Whole →
      t.frame.locals.memory.Whole)

/-- **Where a step of a running machine leads.** -/
inductive Evm.Hop (s t : Evm) : Prop
  | stay (h : s.Onward t)
  | enter {b : UInt8} {l : Locals} {r : Reason} (hb : s.byteAt = some b) (hlen : operandLen b = 0)
    (hl : Stays s.env s.frame.locals l) (ht : ChildOf ⟨s.env, l⟩ s.parents r t)
  | leave {p : Frame} {ps : List Frame} {l : Locals} (hs : s.parents = p :: ps)
    (hl : Stays p.env p.locals l) (ht : GoesOn p ps { l with pc := l.pc + 1 } t)

/-- The frames that wait in `t` waited in `s`, but for that of `s` itself. -/
def Evm.Waits (s t : Evm) : Prop := ∀ q ∈ t.parents, q ∈ s.parents ∨
  ∃ b l, s.byteAt = some b ∧ operandLen b = 0 ∧ Stays s.env s.frame.locals l ∧ q = ⟨s.env, l⟩

section

variable {B : AccountStorage} {s t u : Evm} {b : UInt8} {isEof : Bool} {a : OpAction}
  {o : Outcome Panic Error Evm OpAction} {x : Session}

theorem Evm.waits_of_eq (h : t.parents = s.parents) : s.Waits t := fun _ hq => .inl (h ▸ hq)

theorem ChildOf.waits {l : Locals} {r : Reason} (hb : s.byteAt = some b) (hlen : operandLen b = 0)
    (hl : Stays s.env s.frame.locals l) (ht : ChildOf ⟨s.env, l⟩ s.parents r t) : s.Waits t := by
  intro q hq
  rw [ht.parents] at hq
  rcases List.mem_cons.1 hq with rfl | hq
  · exact .inr ⟨b, l, hb, hlen, hl, rfl⟩
  · exact .inl hq

theorem Evm.waits_of_tail {p : Frame} {ps : List Frame} (hs : s.parents = p :: ps)
    (ht : t.parents = ps) : s.Waits t := fun _ hq => .inl (hs ▸ List.mem_cons_of_mem p (ht ▸ hq))

theorem Evm.Onward.parents (h : s.Onward t) : t.parents = s.parents := by
  rcases h with ⟨-, -, h⟩ | ⟨-, -, h, -⟩
  · exact h.parents
  · exact h

theorem Evm.Onward.env (h : s.Onward t) : t.env = s.env := by
  rcases h with ⟨-, -, h⟩ | ⟨-, h, -, -⟩
  · exact h.env
  · exact h

theorem Evm.Hop.waits (h : s.Hop t) : s.Waits t := by
  cases h with
  | stay h => exact waits_of_eq h.parents
  | enter hb hlen hl ht => exact ht.waits hb hlen hl
  | leave hs hl ht => exact waits_of_tail hs ht.parents

/-! ## Opcodes -/

/-- **Where an opcode leads**, before the program counter is moved. -/
def Hops (s : Evm) (o : Outcome Panic Error Evm OpAction) : Prop :=
  o.Sat (fun a u => ∀ t, (Evm.conclude a u).current = some t → s.Hop t) (fun _ u => s.Waits u)
    fun _ => True

/-- What a turn makes of an action. -/
theorem Evm.conclude_current (h : (Evm.conclude a u).current = some t) :
    a.exit? = none ∧ Evm.conclude a u = .running t ∧ t.env = u.env ∧ t.parents = u.parents ∧
      t.frame.locals = a.movePc u.frame.locals := by
  unfold Evm.conclude at h ⊢
  have htrace : (Evm.traceEndStep a u).frame = u.frame ∧
      (Evm.traceEndStep a u).parents = u.parents := by
    unfold Evm.traceEndStep
    split <;> exact ⟨rfl, rfl⟩
  cases ha : a.exit? with
  | some status =>
    rw [ha] at h
    cases h
  | none =>
    rw [ha] at h
    obtain rfl := Option.some.inj h
    have henv : (Evm.traceEndStep a u).frame.env = u.frame.env := congrArg (·.env) htrace.1
    have hlocals : (Evm.traceEndStep a u).frame.locals = u.frame.locals :=
      congrArg (·.locals) htrace.1
    exact ⟨rfl, rfl, henv, htrace.2, congrArg a.movePc hlocals⟩

/-- The action of an opcode on locals is none that ends the run. -/
theorem Evm.conclude_toOpAction (a : LocalAction) (u : Evm) :
    ∃ t, Evm.conclude a.toOpAction u = .running t := by
  cases a <;> exact ⟨_, rfl⟩

theorem movePc_toOpAction (l l' : Locals) (a : LocalAction) (h : l'.pc = l.pc) :
    (a.toOpAction.movePc l').pc = a.position l ∧
      (a.toOpAction.movePc l').memory = l'.memory ∧
      (a.toOpAction.movePc l').returnStack = l'.returnStack := by
  cases a with
  | «continue» => exact ⟨congrArg (· + 1) h, rfl, rfl⟩
  | jump target => exact ⟨rfl, rfl, rfl⟩
  | codeSection section_ pc => exact ⟨rfl, rfl, rfl⟩

/-- An action in the frame it started from. -/
theorem AtHome.proceeds {a : LocalAction} (h : AtHome s u)
    (ht : (Evm.conclude a.toOpAction u).current = some t) :
    s.Proceeds (a.position s.frame.locals) t := by
  obtain ⟨-, -, henv, hparents, hlocals⟩ := Evm.conclude_current ht
  obtain ⟨hpc, hmemory, hreturns⟩ := movePc_toOpAction s.frame.locals u.frame.locals a h.locals.pc
  refine ⟨henv.trans h.env, hparents.trans h.parents, ?_, ?_, ?_⟩
  · rw [hlocals]
    exact hpc
  · rw [hlocals, hmemory]
    exact h.locals.memory
  · rw [hlocals, hreturns]
    exact h.locals.returnStack

theorem hops_local {op : LocalOp} (hb : s.byteAt = some b) (hop : Advances b op) :
    Hops s (Evm.onLocals (do pure (← op ⟨B, s.env, s.backend.toDatabase⟩).toOpAction) s) := by
  have h := hop ⟨B, s.env, s.backend.toDatabase⟩ s.frame.locals
  refine sat_onLocals (fun a l hl t ht => ?_) fun e l hl => Evm.waits_of_eq rfl
  rw [bind_run] at hl
  cases ho : op ⟨B, s.env, s.backend.toDatabase⟩ s.frame.locals with
  | ok a' l' =>
    rw [ho] at h hl
    obtain ⟨rfl, rfl⟩ := Outcome.ok.inj hl
    exact .stay (.opcode hb h.1 (AtHome.proceeds (u := s.setLocals l') ⟨rfl, rfl, h.2⟩ ht))
  | err e l' =>
    rw [ho] at hl
    cases hl
  | panic f =>
    rw [ho] at hl
    cases hl

/-- An opcode without an operand that stays in its frame. -/
theorem StaysOpen.hops (h : StaysOpen s o) (hb : s.byteAt = some b) (hlen : operandLen b = 0)
    (ha : ∀ a u, o = .ok a u → a = .continue) : Hops s o := by
  cases o with
  | ok a u =>
    intro t ht
    obtain rfl := ha a u rfl
    have hu : AtHome s u := h
    exact .stay (.opcode hb (.next hlen) (hu.proceeds (a := .continue) ht))
  | err e u => exact Evm.waits_of_eq (show AtHome s u from h).parents
  | panic f => trivial

theorem Calls.hops {withValue : Bool} (h : Calls withValue s o) (hb : s.byteAt = some b)
    (hlen : operandLen b = 0) : Hops s o := by
  have stays {args : Evm.CallArgs} {l : Locals} (hside : callerSide withValue s.frame.locals =
      .ok args l) : Stays s.env s.frame.locals l := Moves.ok (stays_callerSide withValue) hside
  refine Outcome.Sat.imp h (fun a u hu t ht => ?_) (fun e u hu => ?_) fun _ h => h
  · obtain ⟨args, l, hside, ⟨rfl, hc⟩ | ⟨env, data, l', -, hdata, rfl, hg⟩⟩ := hu
    · obtain ⟨-, -, henv, hparents, hlocals⟩ := Evm.conclude_current ht
      refine .enter (r := .call) hb hlen (stays hside) ⟨hparents.trans hc.parents, ?_, ?_⟩
      · rw [henv]
        exact hc.reason
      · rw [henv, hlocals]
        exact hc.locals
    · have hhome : AtHome s u := hg.atHome (stays hside) (Moves.ok stays_returnDelivery hdata)
      exact .stay (.opcode hb (.next hlen) (hhome.proceeds (a := .continue) ht))
  · rcases hu with hu | ⟨args, l, hside, hc⟩
    · exact Evm.waits_of_eq hu.parents
    · exact hc.waits hb hlen (stays hside)

theorem Creates.hops {base : List Action} (h : Creates s base o) (hb : s.byteAt = some b)
    (hlen : operandLen b = 0) : Hops s o := by
  refine Outcome.Sat.imp h (fun a u hu t ht => ?_) (fun e u hu => ?_) fun _ h => h
  · obtain ⟨rfl, l, hl, hc, -⟩ := hu
    obtain ⟨-, -, henv, hparents, hlocals⟩ := Evm.conclude_current ht
    refine .enter (r := .create) hb hlen hl ⟨hparents.trans hc.parents, ?_, ?_⟩
    · rw [henv]
      exact hc.reason
    · rw [henv, hlocals]
      exact hc.locals
  · rcases hu with hu | ⟨l, hl, hc⟩
    · exact Evm.waits_of_eq hu.parents
    · exact hc.waits hb hlen hl

/-- A delivery keeps what it does not write. -/
def DeliversStaying (D : LocalM Unit → Prop) : Prop := ∀ x, D x → ∀ E, Moves (Stays E) x

variable [Platform]

/-- **The end of a frame.** -/
theorem hops_of_ends {e : Ending} {D : LocalM Unit → Prop} (hD : DeliversStaying D)
    (hends : Ends B e s o) (hover : ∀ p ps, s.parents = p :: ps → HandsOver s p ps D o) :
    Hops s o := by
  cases o with
  | panic f => trivial
  | err err u =>
    rcases hends with hw | ⟨m, p, hl⟩
    · exact Evm.waits_of_eq hw.parents
    · exact Evm.waits_of_tail (hl.work.parents.symm.trans hl.parents) rfl
  | ok a u =>
    intro t ht
    rcases hends with ⟨-, m, p, hl⟩ | ⟨ha, -⟩
    · have hparents : s.parents = p :: u.parents := hl.work.parents.symm.trans hl.parents
      obtain ⟨rfl, x, l, hx, hxl, hg⟩ := hover p _ hparents
      obtain ⟨v, hv, hgv⟩ := conclude_continue hg
      obtain rfl : v = t := by
        rw [hv] at ht
        exact Option.some.inj ht
      exact .leave hparents (Moves.ok (hD x hx p.env) hxl) hgv
    · exact absurd (Evm.conclude_current ht).1 ha

omit [Platform] in
theorem hops_opcodeRetf (s : Evm) : Hops s (Evm.opcodeRetf s) := by
  unfold Evm.opcodeRetf
  simp only [bind_run, get_run, Outcome.ok_andThen]
  cases hstack : s.frame.locals.returnStack with
  | nil => exact Evm.waits_of_eq rfl
  | cons ctx rest =>
    show Hops s ((if rest = [] then pure .stop else pure (.codeSection ctx.codeSection ctx.pc)
      : EvmM OpAction) (s.setLocals { s.frame.locals with returnStack := rest }))
    by_cases h : rest = []
    · rw [if_pos h]
      intro t ht
      cases ht
    · rw [if_neg h]
      intro t ht
      obtain ⟨-, -, henv, hparents, hlocals⟩ := Evm.conclude_current ht
      refine .stay (.retf ?_ henv hparents fun hw => ?_)
      · rw [hstack]
        exact Nat.succ_lt_succ (List.length_pos_iff.2 h)
      · rw [hlocals]
        exact hw

/-- **Every opcode of the table hops.** -/
theorem hops_opcode (hb : s.byteAt = some b) : Hops s ((tableOf isEof b).run B s) := by
  have hentry := entryOk_tableOf isEof b
  have returned : DeliversStaying (fun x => ∃ data l, readResult s.frame.locals = .ok data l ∧
      x = returnDelivery s.env data) := by
    rintro x ⟨data, l, -, rfl⟩ E
    exact stays_returnDelivery
  have reverted : DeliversStaying (fun x => ∃ data l, readResult s.frame.locals = .ok data l ∧
      x = revertDelivery s.env data) := by
    rintro x ⟨data, l, -, rfl⟩ E
    exact stays_revertDelivery
  have emptied : DeliversStaying (· = emptyDelivery s.env) := by
    rintro x rfl E
    exact stays_emptyDelivery
  generalize tableOf isEof b = op at hentry
  cases op with
  | loc op => exact hops_local hb hentry
  | sys op =>
    have hlen : operandLen b = 0 := hentry
    cases op with
    | sload =>
      refine (staysOpen_opcodeSload s).hops hb hlen fun a u h => ?_
      obtain ⟨_, _, -, h⟩ := bind_eq_ok.1 h
      obtain ⟨_, _, -, h⟩ := bind_eq_ok.1 h
      obtain ⟨_, _, -, h⟩ := bind_eq_ok.1 h
      obtain ⟨_, _, -, h⟩ := bind_eq_ok.1 h
      obtain ⟨_, _, -, h⟩ := bind_eq_ok.1 h
      exact (pure_eq_ok.1 h).1.symm
    | sstore =>
      refine (staysOpen_opcodeSstore s).hops hb hlen fun a u h => ?_
      change (if s.env.isStatic = true then _ else _ : EvmM OpAction) s = .ok a u at h
      by_cases hstatic : s.env.isStatic = true
      · rw [if_pos hstatic] at h
        cases h
      · rw [if_neg hstatic] at h
        obtain ⟨_, _, -, h⟩ := bind_eq_ok.1 h
        obtain ⟨_, _, -, h⟩ := bind_eq_ok.1 h
        obtain ⟨_, _, -, h⟩ := bind_eq_ok.1 h
        obtain ⟨_, _, -, h⟩ := bind_eq_ok.1 h
        exact (pure_eq_ok.1 h).1.symm
    | create => exact (creates_opcodeCreate s).hops hb hlen
    | create2 => exact (creates_opcodeCreate2 s).hops hb hlen
    | call => exact (calls_opcode .call rfl s).hops hb hlen
    | callcode => exact (calls_opcode .callcode rfl s).hops hb hlen
    | delegatecall => exact (calls_opcode .delegatecall rfl s).hops hb hlen
    | staticcall => exact (calls_opcode .staticcall rfl s).hops hb hlen
    | ret => exact hops_of_ends returned (ends_opcodeReturn (B := B) s) fun _ _ => handsOver_opcodeReturn
    | revert => exact hops_of_ends reverted (ends_opcodeRevert (B := B) s) fun _ _ => handsOver_opcodeRevert
    | stop => exact hops_of_ends emptied (ends_opcodeStop (B := B) s) fun _ _ => handsOver_opcodeStop
    | selfdestruct =>
      exact hops_of_ends emptied (ends_opcodeSelfdestruct s) fun _ _ => handsOver_opcodeSelfdestruct
    | retf => exact hops_opcodeRetf s

/-! ## Steps -/

omit [Platform] in
theorem Hops.of_tracer {tracer : Option (List Event)} (h : Hops { s with tracer := tracer } o) :
    Hops s o := by
  refine Outcome.Sat.imp h (fun a u hu t ht => ?_) (fun _ _ h => h) fun _ h => h
  rcases hu t ht with (⟨hb, ha, hp⟩ | ⟨hr, henv, hparents, hm⟩) | ⟨hb, hlen, hl, hc⟩ | ⟨hs, hl, hg⟩
  · exact .stay (.opcode hb ha ⟨hp.env, hp.parents, hp.locals⟩)
  · exact .stay (.retf hr henv hparents hm)
  · exact .enter hb hlen hl hc
  · exact .leave hs hl hg

/-- **The next opcode hops**, whatever the table. -/
theorem Evm.hops_runOpcode (B : AccountStorage) (isEof : Bool) (s : Evm) :
    Hops s (Evm.runOpcode B isEof s) := by
  unfold Evm.runOpcode Evm.fetch
  simp only [bind_run, get_run, Outcome.ok_andThen]
  cases hcode : getCode s.env s.frame.locals with
  | error f => trivial
  | ok code =>
    have hb : s.byteAt = some (code.getOrDefault s.frame.locals.pc) := by
      change (match getCode s.env s.frame.locals with
        | .ok code => some (code.getOrDefault s.frame.locals.pc)
        | .error _ => none) = _
      rw [hcode]
    refine Hops.of_tracer (hops_opcode ?_)
    exact hb

omit [Platform] in
/-- What `micro` makes of a computation. -/
theorem Hops.step {y : Progress} (h : Hops s o) (hok : ∀ a u, o = .ok a u → y = Evm.conclude a u)
    (herr : ∀ e u, o = .err e u → y.current = some u ∧ ∀ t, y ≠ .running t)
    (hpanic : ∀ f, o = .panic f → y = .panicked f) (ht : y.current = some t) :
    s.Waits t ∧ (y = .running t → s.Hop t) := by
  cases o with
  | ok a u =>
    obtain rfl := hok a u rfl
    have hop := h t ht
    exact ⟨hop.waits, fun _ => hop⟩
  | err e u =>
    obtain ⟨hu, hy⟩ := herr e u rfl
    obtain rfl : u = t := Option.some.inj (hu.symm.trans ht)
    exact ⟨h, fun h => absurd h (hy u)⟩
  | panic f =>
    rw [hpanic f rfl] at ht
    cases ht

/-- **Where a step leads** from the current frame, and which frames wait then. -/
theorem Session.hops (hs : x.progress.current = some s)
    (ht : (x.after B .next).progress.current = some t) :
    s.Waits t ∧ ((x.after B .next).progress = .running t → s.Hop t) := by
  obtain ⟨isEof, pr⟩ := x
  cases pr with
  | running r =>
    obtain rfl : r = s := Option.some.inj hs
    refine (Evm.hops_runOpcode B isEof r).step ?_ ?_ ?_ ht <;> intros <;>
      simp_all [after, micro, Progress.current]
  | failed err r =>
    obtain rfl : r = s := Option.some.inj hs
    have h : Hops r (Evm.handleError err r) := by
      refine hops_of_ends (D := (· = revertDelivery r.env (.fromSlice err.revertMessage))) ?_
        (ends_opcodeRevertImpl (B := B) _ r) fun _ _ hps => handsOver_opcodeRevertImpl hps
      rintro d rfl E
      exact stays_revertDelivery
    refine h.step ?_ ?_ ?_ ht <;> intros <;> simp_all [after, micro, Progress.current]
  | _ => cases hs

/-! ## Properties of frames -/

/-- **A property of current frames** and one of waiting frames, which opening a child and ending one
keep. -/
structure FrameInvariant (I J : Frame → Prop) : Prop where
  opens : ∀ {env l}, Stays env Locals.new l → I ⟨env, l⟩
  waits : ∀ {s : Evm} {b l}, I s.frame → s.byteAt = some b → operandLen b = 0 →
    Stays s.env s.frame.locals l → J ⟨s.env, l⟩
  returns : ∀ {p : Frame} {l}, J p → Stays p.env p.locals l → I ⟨p.env, { l with pc := l.pc + 1 }⟩

/-- The frame of a running machine has one property, and those that wait have the other. -/
structure Progress.Frames (I J : Frame → Prop) (p : Progress) : Prop where
  current : ∀ {s}, p = .running s → I s.frame
  parents : ∀ {s}, p.current = some s → ∀ q ∈ s.parents, J q

variable {I J : Frame → Prop} {y : Session} {G : Session.Kind → Session → Prop}

omit [Platform] in
theorem Evm.frame_eq {env : CallEnv} {l : Locals} (henv : t.env = env) (hl : t.frame.locals = l) :
    t.frame = ⟨env, l⟩ := by
  rw [← henv, ← hl]
  rfl

/-- The handler of errors goes on running, or the run is over. -/
theorem micro_failed_running {err : Error}
    (ht : (micro B isEof (.failed err s)).current = some t) :
    micro B isEof (.failed err s) = .running t := by
  unfold micro at ht ⊢
  dsimp only at ht ⊢
  cases ho : Evm.handleError err s with
  | ok a u =>
    rw [ho] at ht
    exact (Evm.conclude_current ht).2.1
  | err e u =>
    rw [ho] at ht
    cases ht
  | panic p =>
    rw [ho] at ht
    cases ht

/-- **A step in the loop** keeps the properties, if going on in the frame does. -/
theorem FrameInvariant.next (hI : FrameInvariant I J) (hx : x.progress.Frames I J)
    (hgo : ∀ {s t}, x.progress = .running s → (x.after B .next).progress = .running t →
      I s.frame → s.Onward t → I t.frame) :
    (x.after B .next).progress.Frames I J := by
  have leave {s t : Evm} {p : Frame} {ps : List Frame} {l : Locals}
      (hs : x.progress.current = some s) (hps : s.parents = p :: ps) (hl : Stays p.env p.locals l)
      (ht : GoesOn p ps { l with pc := l.pc + 1 } t) : I t.frame := by
    rw [Evm.frame_eq ht.env ht.locals]
    exact hI.returns (hx.parents hs p (hps ▸ List.mem_cons_self)) hl
  have hall {s t : Evm} (hs : x.progress.current = some s)
      (ht : (x.after B .next).progress.current = some t) :
      ((x.after B .next).progress = .running t → I t.frame) ∧ ∀ q ∈ t.parents, J q := by
    obtain ⟨hwaits, hhop⟩ := Session.hops hs ht
    cases hp : x.progress with
    | running r =>
      obtain rfl : r = s := by
        rw [hp] at hs
        exact Option.some.inj hs
      refine ⟨fun hrunning => ?_, fun q hq => ?_⟩
      · rcases hhop hrunning with h | ⟨hb, hlen, hl, hc⟩ | ⟨hps, hl, hg⟩
        · exact hgo hp hrunning (hx.current hp) h
        · exact hI.opens hc.locals
        · exact leave hs hps hl hg
      · rcases hwaits q hq with hq | ⟨b, l, hb, hlen, hl, rfl⟩
        · exact hx.parents hs q hq
        · exact hI.waits (hx.current hp) hb hlen hl
    | failed err r =>
      obtain rfl : r = s := by
        rw [hp] at hs
        exact Option.some.inj hs
      have hafter : (x.after B .next).progress = micro B x.isEof (.failed err r) := by
        rw [← hp]
        rfl
      rw [hafter] at ht hhop ⊢
      have hlen := micro_failed_length x.isEof err ht
      rcases hhop (micro_failed_running ht) with h | ⟨hb, hlen', hl, hc⟩ | ⟨hps, hl, hg⟩
      · exact absurd hlen (h.parents ▸ Nat.lt_irrefl _)
      · rw [hc.parents] at hlen
        exact absurd hlen (Nat.not_lt_of_lt (Nat.lt_succ_self _))
      · refine ⟨fun _ => leave hs hps hl hg, fun q hq => hx.parents hs q ?_⟩
        rw [hps]
        exact List.mem_cons_of_mem _ (hg.parents ▸ hq)
    | _ => simp [hp, Progress.current] at hs
  have hcurrent {t : Evm} (ht : (x.after B .next).progress.current = some t) :
      ∃ s, x.progress.current = some s := by
    obtain ⟨isEof, p⟩ := x
    cases p with
    | running r => exact ⟨r, rfl⟩
    | failed err r => exact ⟨r, rfl⟩
    | _ => cases ht
  refine ⟨fun {t} ht => ?_, fun {t} ht => ?_⟩
  · have hsome : (x.after B .next).progress.current = some t := by rw [ht]; rfl
    obtain ⟨s, hs⟩ := hcurrent hsome
    exact (hall hs hsome).1 ht
  · obtain ⟨s, hs⟩ := hcurrent ht
    exact (hall hs ht).2

omit [Platform] in
theorem Progress.Frames.over {p : Progress} (h : p.current = none) : p.Frames I J := by
  refine ⟨fun hp => ?_, fun hp => ?_⟩
  · rw [hp] at h
    cases h
  · rw [hp] at h
    cases h

/-- **Entering `execute`** keeps the properties. -/
theorem Progress.Frames.enter (hI : I s.frame) (hJ : ∀ q ∈ s.parents, J q) :
    (NeonEvm.enter s).Frames I J := by
  have h := enterVM_run s
  unfold NeonEvm.enter
  cases hv : enterVM s with
  | ok o t =>
    rw [hv] at h
    cases o with
    | none =>
      obtain ⟨hframe, hparents, -⟩ := h
      refine ⟨fun ht => ?_, fun ht => ?_⟩
      · obtain rfl := Progress.running.inj ht
        exact hframe ▸ hI
      · obtain rfl := Option.some.inj ht
        exact hparents ▸ hJ
    | some status => exact .over rfl
  | err e t => exact .over rfl
  | panic f => exact .over rfl

/-- **Every run keeps the properties**, over whatever accounts each of its steps is given, if going
on in a frame does. -/
theorem FrameInvariant.run {trx : Transaction} {origin : Address} (hI : FrameInvariant I J)
    (hgo : ∀ {B : AccountStorage} {x : Session} {s t}, G .next x → x.progress = .running s →
      (x.after B .next).progress = .running t → I s.frame → s.Onward t → I t.frame)
    (hstart : Session.Starts B trx origin x)
    (hrun : Relation.ReflTransGen (fun x y => ∃ B, Session.Step B G x y) x y) :
    y.progress.Frames I J := by
  induction hrun with
  | refl =>
    obtain ⟨m, b, tracer, hnew, rfl⟩ := hstart
    obtain ⟨base, hfresh⟩ : ∃ base, Machine.Fresh B origin m base b := by
      simpa [hnew, Outcome.Sat] using Machine.new_run (B := B) trx origin
    refine Progress.Frames.enter ?_ ?_
    · have hlocals : m.frame.locals = Locals.new := hfresh.locals
      have hstays : Stays m.frame.env Locals.new m.frame.locals := hlocals ▸ .refl _ _
      exact hI.opens hstays
    · rw [hfresh.parents]
      exact List.forall_mem_nil _
  | tail _ hstep ih =>
    obtain ⟨B, k, hk, rfl⟩ := hstep
    cases k with
    | next => exact hI.next ih fun hs ht hi ho => hgo hk hs ht hi ho
    | resume =>
      rename_i z _
      obtain ⟨isEof, p⟩ := z
      cases p with
      | running s => exact .enter (ih.current rfl) (ih.parents rfl)
      | _ => exact ih

end

end NeonEvm
