import NeonEvm.Evm.Hop
import NeonEvm.Evm.MemoryRuns

/-!
# Evm/CallResult — what a call writes into the memory of its caller

    before  … a b c d e f g h …
    range         └───────┘
    result        x y
    after   … a b x y 0 0 g h …

The result is written by the operation that serves the copies: behind a result that is shorter than
the range it fills with zeros.
-/

namespace NeonEvm

open Exec ExecutorState Chain Locals Cells

/-! ## Memory -/

section

variable {m : Memory} {offset length : ℕ}

/-- **Making room** within the limit is not refused, and no byte changes. -/
theorem Memory.Whole.realloc (hm : m.Whole) (h : offset + length ≤ MAX_MEMORY_SIZE) :
    ∃ m', m.realloc offset length = (m', .ok ()) ∧ m'.Whole ∧ offset + length ≤ m'.capacity ∧
      cells 0 m'.data = cells 0 m.data := by
  have hlimit : MAX_MEMORY_SIZE = 2 ^ 16 := rfl
  have husize : USIZE = 2 ^ 64 := rfl
  obtain ⟨hwhole, hroom⟩ := Memory.realloc_whole hm offset length
  have hrun : (m.realloc offset length).2 = .ok () ∧
      cells 0 (m.realloc offset length).1.data = cells 0 m.data := by
    rw [Memory.realloc, Memory.checkedNextMultipleOf32_bind (by omega)]
    dsimp only
    set newSize := (offset + length + 31) / 32 * 32 with hnew
    have hdata : (if m.size < newSize then { m with size := newSize } else m).data = m.data := by
      split <;> rfl
    by_cases hfits : newSize ≤ m.capacity
    · rw [if_pos hfits]
      exact ⟨rfl, congrArg (cells 0) hdata⟩
    · have hclog : Nat.clog 2 newSize ≤ 16 := Nat.clog_le_of_le_pow (by omega)
      have hpow : 2 ^ Nat.clog 2 newSize ≤ 2 ^ 16 := Nat.pow_le_pow_right (by decide) hclog
      rw [if_neg hfits, checkedNextPowerOfTwo, if_pos (by omega)]
      dsimp only
      rw [if_neg (by omega)]
      exact ⟨rfl, cells_append_replicate⟩
  exact ⟨_, Prod.ext rfl hrun.1, hwhole, hroom hrun.1, hrun.2⟩

/-- **Writing** within the limit: the source from its offset, and zeros behind it. -/
theorem Memory.Whole.writeBuffer (hm : m.Whole) (source : Bytes) (sourceOffset : ℕ)
    (h : offset + length ≤ MAX_MEMORY_SIZE) :
    ∃ m', m.writeBuffer offset length source sourceOffset = (m', .ok ()) ∧
      cells 0 m'.data =
        overlay (cells 0 m.data) offset (window (cells 0 source) sourceOffset length) := by
  rw [Memory.writeBuffer]
  by_cases hzero : length = 0
  · rw [if_pos hzero, hzero]
    exact ⟨m, rfl, overlay_nil.symm⟩
  · rw [if_neg hzero, Memory.sourceBytes_eq_window, Memory.storeAt, length_window]
    obtain ⟨m', hrun, hwhole, hroom, hcells⟩ := hm.realloc h
    rw [hrun]
    refine ⟨_, rfl, ?_⟩
    rw [← hcells]
    refine cells_overwrite ?_
    rw [length_window, hwhole.length]
    exact hroom

/-- A range is written from the start of the source. -/
theorem Memory.Whole.writeRange (hm : m.Whole) (source : Bytes)
    (h : offset + length ≤ MAX_MEMORY_SIZE) :
    ∃ m', m.writeRange ⟨offset, offset + length⟩ source = (m', .ok ()) ∧
      cells 0 m'.data = overlay (cells 0 m.data) offset (window (cells 0 source) 0 length) := by
  have hlen : Range.len ⟨offset, offset + length⟩ = length := Nat.add_sub_cancel_left ..
  rw [Memory.writeRange, hlen]
  exact hm.writeBuffer source 0 h

/-- The byte of a memory at a position; zero where there is none yet. -/
def Memory.byteAt (m : Memory) (i : ℕ) : UInt8 := m.data.getD i 0

/-- **A call writes only its result** `d` into the range of `length` bytes at `offset`, as far as it
goes, and keeps every other byte that was there. -/
structure CallWrites (before after : Memory) (offset length : ℕ) (d : Bytes) : Prop where
  written : ∀ i, i < length → (h : i < d.length) → after.byteAt (offset + i) = d[i]
  kept : ∀ i, i < before.size → (i < offset ∨ offset + min length d.length ≤ i) →
    after.byteAt i = before.byteAt i

/-- **There is nothing but zeros** in the part of the range behind the result. -/
def ZeroBehind (before : Memory) (offset length : ℕ) (d : Bytes) : Prop :=
  ∀ i, d.length ≤ i → i < length → offset + i < before.size → before.byteAt (offset + i) = 0

theorem overlay_window {f g : ℕ → UInt8} {i : ℕ} (h : offset ≤ i ∧ i < offset + length) :
    overlay f offset (window g 0 length) i = g (i - offset) := by
  rw [overlay, if_pos h.1, getElem?_window (by omega), Option.getD_some, Nat.zero_add]

/-- **Filling with zeros** keeps the bytes behind the result if and only if they are zeros. -/
theorem callWrites_iff {before after : Memory} {d : Bytes}
    (h : cells 0 after.data = overlay (cells 0 before.data) offset (window (cells 0 d) 0 length)) :
    CallWrites before after offset length d ↔ ZeroBehind before offset length d := by
  have hin {i : ℕ} (hi : offset ≤ i ∧ i < offset + length) :
      after.byteAt i = cells 0 d (i - offset) := by
    rw [← overlay_window (f := cells 0 before.data) (g := cells 0 d) hi, ← h]
    rfl
  have hout {i : ℕ} (hi : i < offset ∨ offset + length ≤ i) : after.byteAt i = before.byteAt i := by
    refine (congrFun h i).trans (overlay_of_not_mem ?_)
    rwa [length_window]
  have hbehind {i : ℕ} (hi : d.length ≤ i) : cells 0 d i = 0 := by
    rw [cells, List.getD_eq_getElem?_getD, List.getElem?_eq_none hi, Option.getD_none]
  refine ⟨fun hw i hd hi hsize => ?_, fun hz => ⟨fun i hi hd => ?_, fun i hsize hi => ?_⟩⟩
  · rw [← hw.kept (offset + i) hsize (.inr (by omega)), hin (by omega), hbehind (by omega)]
  · rw [hin (by omega), Nat.add_sub_cancel_left]
    rw [cells, List.getD_eq_getElem?_getD, List.getElem?_eq_getElem hd, Option.getD_some]
  · by_cases hrange : offset ≤ i ∧ i < offset + length
    · have hzero := hz (i - offset) (by omega) (by omega) (by omega)
      rw [Nat.add_sub_cancel' hrange.1] at hzero
      rw [hin hrange, hbehind (by omega), hzero]
    · exact hout (by omega)

/-! ## Deliveries -/

/-- The range that a delivery writes to is within the limit. -/
structure Locals.Awaits (l : Locals) (offset length : ℕ) : Prop where
  memory : l.memory.Whole
  range : l.returnRange = ⟨offset, offset + length⟩
  within : offset + length ≤ MAX_MEMORY_SIZE

/-- **A delivery writes the bytes `d`**, and is not refused where the stack has room. -/
structure WritesBack (x : LocalM Unit) (l : Locals) (offset length : ℕ) (d : Bytes) : Prop where
  written : ∀ l', x l = .ok () l' → cells 0 l'.memory.data =
    overlay (cells 0 l.memory.data) offset (window (cells 0 d) 0 length)
  accepted : l.stack.HasRoom → ∃ l', x l = .ok () l'

variable {env : CallEnv} {l : Locals} {d : Bytes} {data : Buffer} {word : U256}

theorem writesBack_deliver (h : l.Awaits offset length) :
    WritesBack (Evm.deliver d word) l offset length d := by
  obtain ⟨m', hrun, hcells⟩ := h.memory.writeRange d h.within
  have hwrite : Locals.writeRange l.returnRange d l = .ok () { l with memory := m' } := by
    rw [← h.range] at hrun
    simp only [Locals.writeRange, onMemory, hrun]
  have hdeliver : Evm.deliver d word l = pushWord word { l with memory := m' } := by
    rw [Evm.deliver, bind_run, get_run, Outcome.ok_andThen, bind_run, hwrite, Outcome.ok_andThen]
  refine ⟨fun l' hl' => ?_, fun hroom => ⟨_, hdeliver.trans
    (pushWord_eq (l := { l with memory := m' }) hroom word)⟩⟩
  rw [hdeliver, pushWord, onStack] at hl'
  cases hpush : ({ l with memory := m' } : Locals).stack.push word with
  | ok stack =>
    simp only [hpush, Except.map] at hl'
    obtain ⟨-, rfl⟩ := Outcome.ok.inj hl'
    exact hcells
  | error e =>
    simp only [hpush, Except.map] at hl'
    cases hl'

theorem WritesBack.setReturnData {x : LocalM Unit} (h : WritesBack x l offset length d) :
    WritesBack (do x; modify fun l => { l with returnData := data }) l offset length d := by
  refine ⟨fun l' hl' => ?_, fun hroom => ?_⟩
  · obtain ⟨_, l₁, hx, hl'⟩ := bind_eq_ok.1 hl'
    obtain ⟨-, rfl⟩ := Outcome.ok.inj hl'
    exact h.written l₁ hx
  · obtain ⟨l₁, hx⟩ := h.accepted hroom
    exact ⟨_, bind_eq_ok.2 ⟨_, l₁, hx, rfl⟩⟩

theorem writesBack_returnDelivery (hreason : env.reason = .call) (h : l.Awaits offset length) :
    WritesBack (returnDelivery env data) l offset length data.toList := by
  rw [returnDelivery, hreason]
  exact (writesBack_deliver h).setReturnData

theorem writesBack_revertDelivery (hreason : env.reason = .call) (h : l.Awaits offset length) :
    WritesBack (revertDelivery env data) l offset length data.toList := by
  rw [revertDelivery, hreason]
  exact (writesBack_deliver h).setReturnData

theorem writesBack_emptyDelivery (hreason : env.reason = .call) (h : l.Awaits offset length) :
    WritesBack (emptyDelivery env) l offset length [] := by
  rw [emptyDelivery, hreason]
  exact writesBack_deliver h

/-! ## The caller's side -/

/-- Every byte keeps its value, and the range where it is. -/
structure Locals.Keeps (l l' : Locals) : Prop where
  cells : cells 0 l'.memory.data = cells 0 l.memory.data
  range : l'.returnRange = l.returnRange

instance : IsTrans Locals Keeps :=
  ⟨fun _ _ _ h h' => ⟨h'.cells.trans h.cells, h'.range.trans h.range⟩⟩

instance : Std.Refl Keeps := ⟨fun _ => ⟨rfl, rfl⟩⟩

theorem keeps_popWord : Moves Keeps popWord := by
  intro l
  unfold popWord onStack
  cases l.stack.pop with
  | ok r => exact ⟨rfl, rfl⟩
  | error e => exact ⟨rfl, rfl⟩

/-- Making room, or failing to, changes no byte. -/
theorem Memory.cells_realloc (m : Memory) (offset length : ℕ) :
    cells 0 (m.realloc offset length).1.data = cells 0 m.data := by
  unfold Memory.realloc
  have hdata (n : ℕ) : (if m.size < n then { m with size := n } else m).data = m.data := by
    split <;> rfl
  cases (checkedAdd offset length).bind checkedNextMultipleOf32 with
  | none => rfl
  | some newSize =>
    dsimp only
    split
    · exact congrArg (Cells.cells 0) (hdata newSize)
    · cases checkedNextPowerOfTwo newSize with
      | none => exact congrArg (Cells.cells 0) (hdata newSize)
      | some newCapacity =>
        dsimp only
        split
        · exact congrArg (Cells.cells 0) (hdata newSize)
        · exact cells_append_replicate

theorem keeps_readBuffer (offset length : ℕ) : Moves Keeps (Locals.readBuffer offset length) := by
  refine moves_bind (fun l => ?_) fun _ => moves_pure _
  have hcells : cells 0 (l.memory.read offset length).1.data = cells 0 l.memory.data := by
    unfold Memory.read
    split_ifs
    · rfl
    · exact Memory.cells_realloc _ _ _
  unfold readMemory onMemory
  dsimp only
  generalize l.memory.read offset length = r at hcells
  rcases r with ⟨m, _ | _⟩
  · exact ⟨hcells, rfl⟩
  · exact ⟨hcells, rfl⟩

/-- **What a call leaves on its caller's side**: the bytes as they were, and the range that awaits
the result. -/
theorem callerSide_awaits {withValue : Bool} {args args' : Evm.CallArgs} {l₀ l₁ : Locals}
    (hm : l.memory.Whole) (hargs : Evm.popCallArgs withValue l₀ = .ok args l₁)
    (hwithin : args.returnOffset + args.returnLength ≤ MAX_MEMORY_SIZE)
    (h : callerSide withValue l₀ = .ok args' l) :
    l.Awaits args.returnOffset args.returnLength ∧
      cells 0 l.memory.data = cells 0 l₀.memory.data := by
  rw [callerSide, bind_run, hargs, Outcome.ok_andThen, bind_run, modify_run, Outcome.ok_andThen] at h
  obtain ⟨_, l₂, hread, h⟩ := bind_eq_ok.1 h
  obtain ⟨-, rfl⟩ := Outcome.ok.inj h
  have hkept := Moves.ok (keeps_readBuffer _ _) hread
  have hpopped := Moves.ok (moves_popCallArgs keeps_popWord withValue) hargs
  refine ⟨⟨hm, hkept.range.trans ?_, hwithin⟩, hkept.cells.trans hpopped.cells⟩
  have hlimit : MAX_MEMORY_SIZE = 2 ^ 16 := rfl
  have husize : USIZE = 2 ^ 64 := rfl
  rw [wrappingAdd, Nat.mod_eq_of_lt (by omega)]

end

/-! ## Sessions -/

section

variable [Platform] {B : AccountStorage} {w y : Session} {s t u v : Evm} {op : SysOp}
  {withValue : Bool} {args : Evm.CallArgs} {l : Locals} {d : Bytes}

omit [Platform] in
/-- Frames have whole memories. -/
theorem wholeInvariant : FrameInvariant (·.locals.memory.Whole) (·.locals.memory.Whole) where
  opens hl := hl.memory Memory.whole_new
  waits hs _ _ hl := hl.memory hs
  returns hp hl := hl.memory hp

/-- **Every memory is whole** in every run. -/
theorem Session.Reached.whole (hw : Session.Reached B w) (hs : w.progress = .running s) :
    s.frame.locals.memory.Whole := by
  obtain ⟨trx, origin, x, hstart, hrun⟩ := hw
  refine (wholeInvariant.run (G := fun _ _ => True) (fun _ _ _ hi ho => ?_) hstart
    (Relation.ReflTransGen.mono (fun _ _ h => ⟨B, h⟩) _ _ hrun)).current hs
  rcases ho with ⟨-, -, hp⟩ | ⟨-, -, -, hmemory⟩
  · exact hp.locals.memory hi
  · exact hmemory hi

/-- **The call that comes next is answered at once** with `d`: a native contract or an extension
returns it over the call data, in the frame that the call has opened. -/
def Session.AnsweredWith (B : AccountStorage) (w : Session) (d : Bytes) : Prop :=
  ∃ b r x args t z u, w.Fetches b r ∧ Evm.opening B (tableOf w.isEof b) = some x ∧
    x r = .ok args t ∧ Evm.answer B args.address t.env = some z ∧ z t = .ok d u

/-- **A call has finished** with the result `d`, its caller going on in `v`: answered at once, or by a
child that has ended in any way. -/
inductive Session.Finishes (B : AccountStorage) (w : Session) (s : Evm) (d : Bytes) (v : Evm) : Prop
  | answered (hd : w.AnsweredWith B d) (hrun : (w.after B .next).progress = .running v)
  | returned {y : Session} {t : Evm} (ht : (w.after B .next).progress.current = some t)
    (hlen : t.parents.length = s.parents.length + 1)
    (hopen : Session.OpenRun B t.parents.length (w.after B .next) y)
    (hended : (y.after B .next).EndedAt t.parents.length v) (hd : y.result = d)

omit [Platform] in
theorem Calls.of_tracer {tracer : Option (List Event)} {o : Outcome Panic Error Evm OpAction}
    (h : Calls withValue { s with tracer := tracer } o) : Calls withValue s o :=
  Outcome.Sat.imp h (fun _ _ h => h) (fun _ _ h => h.imp_left fun h =>
    ⟨h.env, h.parents, h.locals⟩) fun _ h => h

/-- **A call that has been made** has opened a child over its caller, if a frame is more. -/
theorem Session.called (hs : w.progress = .running s) (hop : s.opcodeAt w.isEof = some (.sys op))
    (hcall : op.callKind = some withValue) (ht : (w.after B .next).progress.current = some t)
    (hlen : t.parents.length = s.parents.length + 1) : ∃ args, OpenedBy withValue s args t := by
  obtain ⟨isEof, pr⟩ := w
  obtain rfl : pr = .running s := hs
  change (micro B isEof (.running s)).current = some t at ht
  rcases Evm.runOpcode_run B isEof s with ⟨hnone, -⟩ | ⟨op', tracer, hsome, hrun⟩
  · rw [hop] at hnone
    cases hnone
  · obtain rfl := Option.some.inj (hop.symm.trans hsome)
    have h : Calls withValue s (op.run B { s with tracer := tracer }) :=
      (calls_opcode op hcall { s with tracer := tracer }).of_tracer
    cases ho : op.run B { s with tracer := tracer } with
    | ok a u =>
      rw [ho] at h
      rw [micro_of_ok (hrun.trans ho)] at ht
      obtain ⟨-, -, henv, hparents, hlocals⟩ := Evm.conclude_current ht
      obtain ⟨args, l, hside, ⟨rfl, hc⟩ | ⟨env, data, l', hreason, hdelivery, rfl, hg⟩⟩ := h
      · refine ⟨args, l, hside, hparents.trans hc.parents, ?_, ?_⟩
        · rw [henv]
          exact hc.reason
        · rw [henv, hlocals]
          exact hc.locals
      · rw [hparents, hg.parents] at hlen
        exact absurd hlen (Nat.succ_ne_self _).symm
    | err e u =>
      rw [ho] at h
      rw [micro_of_err (hrun.trans ho)] at ht
      obtain rfl : u = t := Option.some.inj ht
      rcases h with h | h
      · rw [h.parents] at hlen
        exact absurd hlen (Nat.succ_ne_self _).symm
      · exact h
    | panic f =>
      rw [micro_of_panic (hrun.trans ho)] at ht
      cases ht

/-- The opcode that is fetched. -/
theorem Session.Fetches.run {b : UInt8} {r : Evm} (hb : w.Fetches b r)
    (hs : w.progress = .running s) (hop : s.opcodeAt w.isEof = some (.sys op)) :
    tableOf w.isEof b = .sys op ∧ r.frame = s.frame ∧ r.parents = s.parents ∧
      Evm.runOpcode B w.isEof s = op.run B r := by
  obtain ⟨s', hs', hfetch⟩ := hb
  obtain rfl : s = s' := Progress.running.inj (hs.symm.trans hs')
  obtain ⟨code, hcode, hbyte, hframe, hparents, -⟩ := Evm.fetch_ok hfetch
  have htable : tableOf w.isEof b = .sys op := by
    rw [Evm.opcodeAt, hcode] at hop
    rw [hbyte]
    exact Option.some.inj hop
  refine ⟨htable, hframe, hparents, ?_⟩
  rw [Evm.runOpcode, bind_run, hfetch, Outcome.ok_andThen, htable]
  rfl

/-- **A call that is answered** returns the answer to its caller. -/
theorem Session.AnsweredWith.delivered (h : w.AnsweredWith B d) (hs : w.progress = .running s)
    (hop : s.opcodeAt w.isEof = some (.sys op)) (hcall : op.callKind = some withValue)
    (hrun : (w.after B .next).progress = .running v) :
    ∃ args l env l', callerSide withValue s.frame.locals = .ok args l ∧ env.reason = .call ∧
      returnDelivery env (.fromSlice d) l = .ok () l' ∧
      v.frame.locals = { l' with pc := l'.pc + 1 } := by
  obtain ⟨b, r, x, args, t, z, u, hb, hx, hargs, hz, hd⟩ := h
  obtain ⟨htable, hframe, hparents, hrunOpcode⟩ := hb.run (B := B) hs hop
  rw [htable] at hx
  obtain ⟨l, hside, hchild⟩ := openedBy_of_opening hcall hx hargs
  obtain ⟨huframe, huparents⟩ := answer_ok hz hd
  have hreturn : op.run B r = Evm.opcodeReturnImpl (.fromSlice d) u := by
    show (Opcode.sys op).run B r = _
    rw [run_opening hx, bind_run, hargs, Outcome.ok_andThen, opcodeCallPrecompileImpl_run, hz]
    dsimp only
    rw [bind_run, hd, Outcome.ok_andThen]
  have hover : HandsOver u ⟨r.env, l⟩ r.parents (· = returnDelivery u.env (.fromSlice d))
      (Evm.opcodeReturnImpl (.fromSlice d) u) :=
    handsOver_opcodeReturnImpl (huparents.trans hchild.parents)
  have hreason : u.env.reason = .call := (congrArg (·.env.reason) huframe).trans hchild.reason
  change micro B w.isEof w.progress = _ at hrun
  rw [hs] at hrun
  cases ho : Evm.opcodeReturnImpl (.fromSlice d) u with
  | ok a t' =>
    rw [ho] at hover
    obtain ⟨rfl, _, l', rfl, hl', hgoes⟩ := hover
    obtain ⟨v', hv', hg⟩ := conclude_continue hgoes
    rw [micro_of_ok ((hrunOpcode.trans hreturn).trans ho), hv'] at hrun
    obtain rfl := Progress.running.inj hrun
    exact ⟨args, l, u.env, l', by rw [← hframe]; exact hside, hreason, hl', hg.locals⟩
  | err e t' =>
    rw [micro_of_err ((hrunOpcode.trans hreturn).trans ho)] at hrun
    cases hrun
  | panic p =>
    rw [micro_of_panic ((hrunOpcode.trans hreturn).trans ho)] at hrun
    cases hrun

/-- **A call that goes on in its caller at once** has been answered. -/
theorem Session.exists_answer (hs : w.progress = .running s)
    (hop : s.opcodeAt w.isEof = some (.sys op)) (hcall : op.callKind = some withValue)
    (hrun : (w.after B .next).progress = .running v)
    (hlen : v.parents.length = s.parents.length) : ∃ d, w.AnsweredWith B d := by
  rcases Evm.fetch_cases s with ⟨f, hcode, -⟩ | ⟨b, r, hfetch⟩
  · rw [Evm.opcodeAt, hcode] at hop
    cases hop
  · have hb : w.Fetches b r := ⟨s, hs, hfetch⟩
    obtain ⟨htable, hframe, hparents, hrunOpcode⟩ := hb.run (B := B) hs hop
    obtain ⟨x, hx, -⟩ := comesTo_opening B hcall
    have hreturn : op.run B r = (x >>= fun args => Evm.opcodeCallPrecompileImpl B args.address) r :=
      congrFun (run_opening hx) r
    change micro B w.isEof w.progress = _ at hrun
    rw [hs] at hrun
    cases ho : op.run B r with
    | err e u =>
      rw [micro_of_err (hrunOpcode.trans ho)] at hrun
      cases hrun
    | panic p =>
      rw [micro_of_panic (hrunOpcode.trans ho)] at hrun
      cases hrun
    | ok a u =>
      rw [micro_of_ok (hrunOpcode.trans ho)] at hrun
      obtain ⟨args, t, hargs, hanswer⟩ := bind_eq_ok.1 (hreturn.symm.trans ho)
      rw [opcodeCallPrecompileImpl_run] at hanswer
      cases hz : Evm.answer B args.address t.env with
      | some z =>
        rw [hz] at hanswer
        obtain ⟨d, t', hd, -⟩ := bind_eq_ok.1 hanswer
        exact ⟨d, b, r, x, args, t, z, t', hb, by rw [htable]; exact hx, hargs, hz, hd⟩
      | none =>
        rw [hz] at hanswer
        obtain ⟨rfl, rfl⟩ := Outcome.ok.inj hanswer
        obtain ⟨l, -, hchild⟩ := openedBy_of_opening hcall hx hargs
        have hv := (Evm.conclude_current (by rw [hrun]; rfl)).2.2.2.1
        rw [hv, hchild.parents, hparents] at hlen
        exact absurd hlen (Nat.succ_ne_self _)

/-- **An answer that fails** leaves a child that has failed: its result is the text of the error. -/
theorem Session.failed_answer {b : UInt8} {r : Evm} {x : EvmM Evm.CallArgs} {z : EvmM Bytes}
    {e : Error} (hs : w.progress = .running s) (hop : s.opcodeAt w.isEof = some (.sys op))
    (hcall : op.callKind = some withValue) (hb : w.Fetches b r)
    (hx : Evm.opening B (.sys op) = some x) (hargs : x r = .ok args t)
    (hz : Evm.answer B args.address t.env = some z) (he : z t = .err e u) :
    (w.after B .next).progress = .failed e u ∧ u.parents.length = s.parents.length + 1 ∧
      (w.after B .next).result = e.revertMessage := by
  obtain ⟨-, -, hparents, hrunOpcode⟩ := hb.run (B := B) hs hop
  have hreturn : op.run B r = .err e u := by
    show (Opcode.sys op).run B r = _
    rw [run_opening hx, bind_run, hargs, Outcome.ok_andThen, opcodeCallPrecompileImpl_run, hz]
    dsimp only
    rw [bind_run, he]
    rfl
  have hafter : (w.after B .next).progress = .failed e u := by
    show micro B w.isEof w.progress = _
    rw [hs]
    exact micro_of_err (hrunOpcode.trans hreturn)
  obtain ⟨l, -, hchild⟩ := openedBy_of_opening hcall hx hargs
  have hu : u.parents = t.parents := (answer_err hz he).2
  refine ⟨hafter, ?_, by rw [Session.result, hafter]⟩
  rw [hu, hchild.parents, List.length_cons, hparents]

/-- **What the end of a called frame hands on** writes its result back. -/
theorem Session.Delivers.writesBack {x : LocalM Unit} {o n : ℕ} (h : y.Delivers x)
    (hu : y.progress.current = some u) (hreason : u.env.reason = .call) (hl : l.Awaits o n) :
    WritesBack x l o n y.result := by
  rcases h.cases hu with ⟨-, -, data, hd, rfl⟩ | ⟨-, -, hd, rfl⟩ | ⟨-, -, data, hd, rfl⟩
  · rw [← hd]
    exact writesBack_revertDelivery hreason hl
  · rw [hd]
    exact writesBack_emptyDelivery hreason hl
  · rw [← hd]
    exact writesBack_returnDelivery hreason hl

/-- **What a finished call has written**: its result, and zeros behind it. -/
theorem Session.Finishes.overlaid (hw : Session.Reached B w) (hs : w.progress = .running s)
    (hop : s.opcodeAt w.isEof = some (.sys op)) (hcall : op.callKind = some withValue)
    (hargs : Evm.popCallArgs withValue s.frame.locals = .ok args l)
    (hwithin : args.returnOffset + args.returnLength ≤ MAX_MEMORY_SIZE)
    (hdone : Session.Finishes B w s d v) :
    cells 0 v.frame.locals.memory.data = overlay (cells 0 s.frame.locals.memory.data)
      args.returnOffset (window (cells 0 d) 0 args.returnLength) := by
  have hwhole := hw.whole hs
  have hawaits {args' : Evm.CallArgs} {l' : Locals}
      (h : callerSide withValue s.frame.locals = .ok args' l') :
      l'.Awaits args.returnOffset args.returnLength ∧
        cells 0 l'.memory.data = cells 0 s.frame.locals.memory.data := by
    have hstays : Stays s.env s.frame.locals l' := Moves.ok (stays_callerSide withValue) h
    exact callerSide_awaits (hstays.memory hwhole) hargs hwithin h
  rcases hdone with ⟨hd, hrun⟩ | ⟨ht, hlen, hopen, hended, rfl⟩
  · obtain ⟨args', l₁, env, l', hside, hreason, hdelivery, hv⟩ := hd.delivered hs hop hcall hrun
    obtain ⟨hl₁, hcells⟩ := hawaits hside
    have hwritten := (writesBack_returnDelivery hreason hl₁).written l' hdelivery
    rw [Buffer.toList_fromSlice] at hwritten
    rw [hv, ← hcells]
    exact hwritten
  · obtain ⟨args', l₁, hside, hchild⟩ := Session.called hs hop hcall ht hlen
    obtain ⟨hl₁, hcells⟩ := hawaits hside
    have hreached : Session.Reached B (w.after B .next) := by
      obtain ⟨trx, origin, w₀, hw₀, hrun⟩ := hw
      exact ⟨trx, origin, w₀, hw₀, hrun.tail ⟨.next, trivial, rfl⟩⟩
    obtain ⟨u, hends⟩ := hopen.ends hreached ht (hchild.parents ▸ List.cons_ne_nil _ _) hended
    have hps : u.parents = ⟨s.env, l₁⟩ :: s.parents := hends.parents.trans hchild.parents
    have hreason : u.env.reason = .call := (congrArg (·.reason) hends.env).trans hchild.reason
    obtain ⟨x, l', hx, hdelivered⟩ := Session.handed hends.current hps hends.after hends.left
    have hback := hx.writesBack hends.current hreason hl₁
    rcases hdelivered with ⟨hl', -, hg⟩ | ⟨e, hl', -, -⟩
    · rw [hg.locals, ← hcells]
      exact hback.written l' hl'
    · obtain ⟨l₂, hok⟩ := hback.accepted (hends.roomy ⟨s.env, l₁⟩ (hps ▸ List.mem_cons_self))
      rw [show x l₁ = _ from hl'] at hok
      cases hok

/-- **A call writes only its result if and only if** the rest of its range holds nothing but zeros. -/
theorem call_writes_only_result (hw : Session.Reached B w) (hs : w.progress = .running s)
    (hop : s.opcodeAt w.isEof = some (.sys op)) (hcall : op.callKind = some withValue)
    (hargs : Evm.popCallArgs withValue s.frame.locals = .ok args l)
    (hwithin : args.returnOffset + args.returnLength ≤ MAX_MEMORY_SIZE)
    (hdone : Session.Finishes B w s d v) :
    CallWrites s.frame.locals.memory v.frame.locals.memory args.returnOffset args.returnLength d ↔
      ZeroBehind s.frame.locals.memory args.returnOffset args.returnLength d :=
  callWrites_iff (hdone.overlaid hw hs hop hcall hargs hwithin)

end

/-! ## Two calls -/

/-- A contract that writes `0xFF` at 0 and calls the account `0x200`, which returns one byte, with a
range of two. -/
def shortCaller : Bytes :=
  [0x60, 0xFF, 0x5F, 0x53, 0x60, 0x02, 0x5F, 0x5F, 0x5F, 0x61, 0x02, 0x00, 0x5F, 0xFA, 0x00]

/-- A contract that returns one byte. -/
def oneByte : Bytes := [0x60, 0x01, 0x5F, 0xF3]

/-- A contract that writes `0xFF` at 31 and calls the account `0x200`, which has no code, with a range
of a word. -/
def wordCaller : Bytes :=
  [0x60, 0xFF, 0x5F, 0x52, 0x60, 0x20, 0x5F, 0x5F, 0x5F, 0x61, 0x02, 0x00, 0x5F, 0xFA, 0x00]

/-- `STATICCALL` is next, over words and a memory that pass the test. -/
def Session.callsWith [Platform] (test : Evm.CallArgs → Memory → Bool) (w : Session) : Bool :=
  w.atStaticcall && match w.progress with
    | .running s => (Evm.popCallArgs false s.frame.locals).okAnd fun args _ =>
      test args s.frame.locals.memory
    | _ => false

theorem Session.exists_of_callsWith [Platform] {test : Evm.CallArgs → Memory → Bool} {w : Session}
    (h : w.callsWith test = true) : ∃ s args l, w.progress = .running s ∧
      s.opcodeAt w.isEof = some (.sys .staticcall) ∧
      Evm.popCallArgs false s.frame.locals = .ok args l ∧
      test args s.frame.locals.memory = true := by
  unfold callsWith at h
  obtain ⟨hat, h⟩ := Bool.and_eq_true_iff.1 h
  obtain ⟨s, hs, hop⟩ := Session.exists_of_atStaticcall hat
  rw [hs] at h
  obtain ⟨args, l, hargs, htest⟩ := Outcome.exists_of_okAnd h
  exact ⟨s, args, l, hs, hop, hargs, htest⟩

theorem Session.Child.finishes [Platform] {B : AccountStorage} {w y : Session} {s t u v : Evm}
    (h : Session.Child B w y s t u v) : Session.Finishes B w s y.result v :=
  .returned h.opened h.length h.openRun h.ended rfl

set_option maxRecDepth 10000 in
/-- The byte behind the result was zero. -/
theorem call_writes_only_result_short : ∃ (_ : Platform) (B : AccountStorage) (w : Session)
    (s v : Evm) (args : Evm.CallArgs) (l : Locals) (d : Bytes), Session.Reached B w ∧
      w.progress = .running s ∧ s.opcodeAt w.isEof = some (.sys .staticcall) ∧
      Evm.popCallArgs false s.frame.locals = .ok args l ∧ Session.Finishes B w s d v ∧
      CallWrites s.frame.locals.memory v.frame.locals.memory 0 2 d := by
  let _ := Platform.bare
  let B := AccountStorage.holding fun a =>
    if a = 0x100 then shortCaller else if a = 0x200 then oneByte else []
  obtain ⟨w, y, r, t, u, v, hchild, htest⟩ := Session.exists_child B (.callOf 0x100) 0x999 9 2
    (fun w y => w.callsWith (fun args m => args.returnOffset = 0 && args.returnLength = 2 &&
      m.byteAt 1 = 0) && y.result.length = 1) (by decide +kernel)
  obtain ⟨hcalls, hlen⟩ := Bool.and_eq_true_iff.1 htest
  obtain ⟨s, args, l, hs, hop, hargs, htest⟩ := Session.exists_of_callsWith hcalls
  simp only [Bool.and_eq_true, decide_eq_true_eq, and_assoc] at htest hlen
  obtain ⟨hoffset, hlength, hzero⟩ := htest
  obtain rfl : s = r := by
    have hr := hchild.caller
    rw [hs] at hr
    exact Option.some.inj hr
  refine ⟨_, B, w, s, v, args, l, y.result, hchild.reached, hs, hop, hargs, hchild.finishes, ?_⟩
  have h := call_writes_only_result hchild.reached hs hop rfl hargs
    (by rw [hoffset, hlength]; decide) hchild.finishes
  rw [hoffset, hlength] at h
  refine h.2 fun i hi hi' _ => ?_
  obtain rfl : i = 1 := by omega
  exact hzero

set_option maxRecDepth 10000 in
/-- **A call that returns nothing erases its range**: the byte at 31 is gone. -/
theorem call_erases_its_range : ∃ (_ : Platform) (B : AccountStorage) (w : Session)
    (s v : Evm) (args : Evm.CallArgs) (l : Locals) (d : Bytes), Session.Reached B w ∧
      w.progress = .running s ∧ s.opcodeAt w.isEof = some (.sys .staticcall) ∧
      Evm.popCallArgs false s.frame.locals = .ok args l ∧
      args.returnOffset + args.returnLength ≤ MAX_MEMORY_SIZE ∧ Session.Finishes B w s d v ∧
      ¬CallWrites s.frame.locals.memory v.frame.locals.memory args.returnOffset args.returnLength d := by
  let _ := Platform.bare
  let B := AccountStorage.holding fun a => if a = 0x100 then wordCaller else []
  obtain ⟨w, y, r, t, u, v, hchild, htest⟩ := Session.exists_child B (.callOf 0x100) 0x999 9 0
    (fun w y => w.callsWith (fun args m => args.returnOffset = 0 && args.returnLength = 32 &&
      m.byteAt 31 ≠ 0 && 31 < m.size) && y.result = []) (by decide +kernel)
  obtain ⟨hcalls, hresult⟩ := Bool.and_eq_true_iff.1 htest
  obtain ⟨s, args, l, hs, hop, hargs, htest⟩ := Session.exists_of_callsWith hcalls
  simp only [Bool.and_eq_true, decide_eq_true_eq, and_assoc] at htest hresult
  obtain ⟨hoffset, hlength, hbyte, hsize⟩ := htest
  obtain rfl : s = r := by
    have hr := hchild.caller
    rw [hs] at hr
    exact Option.some.inj hr
  have hwithin : args.returnOffset + args.returnLength ≤ MAX_MEMORY_SIZE := by
    rw [hoffset, hlength]
    decide
  refine ⟨_, B, w, s, v, args, l, y.result, hchild.reached, hs, hop, hargs, hwithin,
    hchild.finishes, fun h => hbyte ?_⟩
  have hzero := (callWrites_iff (hchild.finishes.overlaid hchild.reached hs hop rfl hargs hwithin)).1 h
  rw [hoffset, hlength, hresult] at hzero
  exact hzero 31 (Nat.zero_le _) (by decide) hsize

end NeonEvm
