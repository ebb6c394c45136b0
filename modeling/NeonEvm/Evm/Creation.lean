import NeonEvm.Evm.Opening

/-!
# Evm/Creation — the word that a creation leaves

    RETURN                the address    the constructor's actions stay
    REVERT, an error      0              they are gone
    STOP, SELFDESTRUCT    0              they stay

The first two report what has happened; the third does not.
-/

namespace NeonEvm

open Exec ExecutorState Chain Locals

section

variable [Platform] {B : AccountStorage} {s t u v : Evm} {w x y : Session} {base : List Action}

/-! ## The constructor that is opened -/

/-- **If a constructor has been opened**, its account is counted behind the journal `base`. -/
def CountsNew (s : Evm) (base : List Action) (o : Outcome Panic Error Evm OpAction) : Prop :=
  o.Sat
    (fun _ t => t.parents.length = s.parents.length + 1 → t.env.reason = .create →
      base ++ [.evmIncrementNonce t.env.context.contract] <+: t.backend.actions)
    (fun _ _ => True) fun _ => True

variable {o : Outcome Panic Error Evm OpAction}

omit [Platform] in
theorem KeepsParents.countsNew (h : KeepsParents s o) : CountsNew s base o :=
  Outcome.Sat.imp h (fun _ _ ht hlen _ => absurd hlen (ht ▸ (Nat.succ_ne_self _).symm))
    (fun _ _ _ => trivial) fun _ h => h

omit [Platform] in
theorem Creates.countsNew (h : Creates s base o) : CountsNew s base o :=
  Outcome.Sat.imp h (fun _ _ ⟨_, _, _, _, h⟩ _ _ => h) (fun _ _ _ => trivial) fun _ h => h

omit [Platform] in
theorem Calls.countsNew {withValue : Bool} (h : Calls withValue s o) : CountsNew s base o := by
  refine Outcome.Sat.imp h (fun a t ht hlen hreason => ?_) (fun _ _ _ => trivial) fun _ h => h
  obtain ⟨args, l, -, ⟨-, hc⟩ | ⟨_, _, _, _, _, _, hg⟩⟩ := ht
  · exact nomatch hc.reason.symm.trans hreason
  · exact absurd hlen (hg.parents ▸ (Nat.succ_ne_self _).symm)

theorem Ends.countsNew {e : Ending} (h : Ends B e s o) : CountsNew s base o := by
  refine Outcome.Sat.imp h (fun a t ht hlen _ => ?_) (fun _ _ _ => trivial) fun _ _ => trivial
  rcases ht with ⟨-, m, p, hl⟩ | ⟨-, m, hx⟩
  · have hlonger : s.parents.length = t.parents.length + 1 := hl.length
    omega
  · rw [show t.parents = [] from hx.parents] at hlen
    exact absurd hlen.symm (Nat.succ_ne_zero _)

theorem countsNew_opcode (op : Opcode) :
    CountsNew s (s.backend.actions ++ [.evmIncrementNonce s.env.context.contract])
      (op.run B s) := by
  cases op with
  | loc op => exact (keepsParents_onLocals _).countsNew
  | sys op =>
    cases op with
    | sload => exact (staysOpen_opcodeSload s).keepsParents.countsNew
    | sstore => exact (staysOpen_opcodeSstore s).keepsParents.countsNew
    | create => exact (creates_opcodeCreate s).countsNew
    | create2 => exact (creates_opcodeCreate2 s).countsNew
    | call => exact (calls_opcode .call rfl s).countsNew
    | callcode => exact (calls_opcode .callcode rfl s).countsNew
    | delegatecall => exact (calls_opcode .delegatecall rfl s).countsNew
    | staticcall => exact (calls_opcode .staticcall rfl s).countsNew
    | ret => exact (ends_opcodeReturn (B := B) s).countsNew
    | revert => exact (ends_opcodeRevert (B := B) s).countsNew
    | stop => exact (ends_opcodeStop (B := B) s).countsNew
    | selfdestruct => exact (ends_opcodeSelfdestruct s).countsNew
    | retf => exact (keepsParents_opcodeRetf s).countsNew

/-- **A constructor at work** has its account counted. -/
theorem Session.counted (hs : w.progress.current = some s)
    (ht : (w.after B .next).progress = .running t)
    (hlen : t.parents.length = s.parents.length + 1) (hcreate : t.env.reason = .create) :
    s.backend.actions ++ opening s.env .create ++ [.evmIncrementNonce t.env.context.contract] <+:
      t.backend.actions := by
  obtain ⟨isEof, p⟩ := w
  have hafter : micro B isEof p = .running t := ht
  cases p with
  | running r =>
    obtain rfl : r = s := Option.some.inj hs
    rcases Evm.runOpcode_run B isEof r with ⟨-, f, hf⟩ | ⟨op, tracer, hop, hrun⟩
    · simp [micro, hf] at hafter
    · have h := countsNew_opcode (B := B) (s := { r with tracer := tracer }) op
      cases ho : op.run B { r with tracer := tracer } with
      | ok a u =>
        rw [ho] at h
        have hconclude : Evm.conclude a u = .running t := by simpa [micro, hrun, ho] using hafter
        have hchain : t.chain = u.chain := Evm.conclude_chain (by rw [hconclude]; rfl)
        have henv : t.env = u.env := congrArg Chain.env hchain
        rw [henv] at hcreate ⊢
        rw [show t.parents = u.parents from congrArg Chain.parents hchain] at hlen
        rw [show t.backend = u.backend from congrArg Chain.backend hchain]
        exact h hlen hcreate
      | err e u => simp [micro, hrun, ho] at hafter
      | panic f => simp [micro, hrun, ho] at hafter
  | failed err r =>
    obtain rfl : r = s := Option.some.inj hs
    have := micro_failed_length (B := B) isEof err (by rw [hafter]; rfl)
    omega
  | _ => cases hs

/-- A frame that has failed on its opening has nothing left to run. -/
theorem Session.OpenRun.failed {err : Error} (hx : x.progress = .failed err t)
    (h : Session.OpenRun B t.parents.length x y) : y.progress = .failed err t := by
  obtain ⟨-, h⟩ := h
  induction h with
  | refl => exact hx
  | @tail z y _ h ih =>
    obtain ⟨⟨k, -, rfl⟩, u, hu, hfloor⟩ := h
    obtain ⟨isEof, p⟩ := z
    obtain rfl : p = .failed err t := ih
    cases k with
    | next => exact absurd hfloor (micro_failed_length (B := B) isEof err hu).not_ge
    | resume => rfl

/-! ## The word -/

/-- The word on top of the stack of the current frame. -/
def Evm.top (s : Evm) : Option U256 := s.frame.locals.stack.words.head?

/-- **What a creation reports** of the constructor of `address` that ends in `y`: opened behind the
journal `base`, its caller goes on in `v`. -/
structure CreateReports (base : List Action) (address : Address) (y : Session) (v : Evm) : Prop where
  committed : y.fails = false → v.top = some (address.setWidth 256)
  reverted : y.fails = true → v.top = some 0
  zero_iff : v.top = some 0 ↔ v.backend.actions = base

/-- A delivery to a creator pushes one word. -/
def PushesTo (d : LocalM Unit) (l : Locals) (word : U256) : Prop :=
  ∃ l', d l = .ok () l' ∧ l'.stack.words.head? = some word

variable {env : CallEnv} {l : Locals} {data : Buffer}

omit [Platform] in
theorem returnDelivery_create (hreason : env.reason = .create) (hroom : l.stack.HasRoom) :
    PushesTo (returnDelivery env data) l (env.context.contract.setWidth 256) := by
  refine ⟨{ l with stack := ⟨_ :: l.stack.words, hroom⟩ }, ?_, rfl⟩
  rw [returnDelivery, hreason]
  exact pushWord_eq hroom _

omit [Platform] in
theorem revertDelivery_create (hreason : env.reason = .create) (hroom : l.stack.HasRoom) :
    PushesTo (revertDelivery env data) l 0 := by
  refine ⟨{ l with stack := ⟨_ :: l.stack.words, hroom⟩, returnData := data }, ?_, rfl⟩
  rw [revertDelivery, hreason]
  exact congrArg (Outcome.andThen · _) (pushWord_eq hroom 0)

omit [Platform] in
theorem emptyDelivery_create (hreason : env.reason = .create) (hroom : l.stack.HasRoom) :
    PushesTo (emptyDelivery env) l 0 := by
  refine ⟨{ l with stack := ⟨_ :: l.stack.words, hroom⟩ }, ?_, rfl⟩
  rw [emptyDelivery, hreason]
  exact pushWord_eq hroom 0

/-- **What the creator finds on its stack** when the constructor has ended. -/
theorem Session.Ends.top (h : Session.Ends B t y u v) (hchild : t.parents ≠ [])
    (hcreate : t.env.reason = .create) :
    (y.fails = true ∧ y.stops = false ∧ v.top = some 0) ∨
    (y.fails = false ∧ y.stops = true ∧ v.top = some 0) ∨
    (y.fails = false ∧ y.stops = false ∧ v.top = some (t.env.context.contract.setWidth 256)) := by
  obtain ⟨p, ps, hps⟩ := List.exists_cons_of_ne_nil (h.parents ▸ hchild)
  have hroom : p.locals.stack.HasRoom := h.roomy p (hps ▸ List.mem_cons_self)
  have hreason : u.env.reason = .create := (congrArg (·.reason) h.env).trans hcreate
  obtain ⟨d, l, hd, hdelivered⟩ := Session.handed h.current hps h.after h.left
  have top {word : U256} (hw : PushesTo d p.locals word) : v.top = some word := by
    obtain ⟨l', hl', hword⟩ := hw
    rcases hdelivered with ⟨hl, -, hg⟩ | ⟨e, hl, -, -⟩
    · obtain ⟨-, rfl⟩ := Outcome.ok.inj (hl'.symm.trans hl)
      rw [Evm.top, hg.locals]
      exact hword
    · exact nomatch hl'.symm.trans hl
  rcases hd.cases h.current with ⟨hf, hst, data, -, rfl⟩ | ⟨hf, hst, -, rfl⟩ | ⟨hf, hst, data, -, rfl⟩
  · exact .inl ⟨hf, hst, top (revertDelivery_create hreason hroom)⟩
  · exact .inr (.inl ⟨hf, hst, top (emptyDelivery_create hreason hroom)⟩)
  · exact .inr (.inr ⟨hf, hst, h.env ▸ top (returnDelivery_create hreason hroom)⟩)

omit [Platform] in
/-- The word of an address is zero if the address is. -/
theorem setWidth_eq_zero_iff {a : Address} : (a.setWidth 256 : U256) = 0 ↔ a = 0 := by
  rw [← BitVec.toNat_inj, ← BitVec.toNat_inj, BitVec.toNat_setWidth_of_le (by decide)]
  rfl

/-- **CREATE and CREATE2 report what happened, unless the constructor stops** — the constructor of
`t` is opened in the session after `w`, stays open up to `y`, and has ended after the next step; the
effects of the constructor are in the journal of `v` if and only if it has not failed. -/
theorem creation_reports_what_happened (hw : Session.Reached B w)
    (hs : w.progress.current = some s) (ht : (w.after B .next).progress.current = some t)
    (hlen : t.parents.length = s.parents.length + 1) (hcreate : t.env.reason = .create)
    (hopen : Session.OpenRun B t.parents.length (w.after B .next) y)
    (hu : y.progress.current = some u)
    (hended : (y.after B .next).EndedAt t.parents.length v) :
    let address := t.env.context.contract
    let base := s.backend.actions ++ [.evmIncrementNonce s.env.context.contract]
    (y.fails = true → v.backend.actions = base) ∧
    (y.fails = false → base ++ [.evmIncrementNonce address] <+: u.backend.actions ∧
      u.backend.actions <+: v.backend.actions) ∧
    (CreateReports base address y v ↔ y.stops = false ∧ (y.fails = true ∨ address ≠ 0)) := by
  intro address base
  have hreached : Session.Reached B (w.after B .next) := by
    obtain ⟨trx, origin, w₀, hw₀, hrun⟩ := hw
    exact ⟨trx, origin, w₀, hw₀, hrun.tail ⟨.next, trivial, rfl⟩⟩
  have hchild : t.parents ≠ [] := List.ne_nil_of_length_eq_add_one hlen
  obtain ⟨u', hends⟩ := hopen.ends hreached ht hchild hended
  obtain rfl : u = u' := Option.some.inj (hu.symm.trans hends.current)
  have hopened := Session.Opened.child hw hs ht hlen
  obtain ⟨ms, hx⟩ := hopened.standsAbove hopen.1
  have hreturned := (hx.run hopen).ended hended
  rw [hcreate] at hreturned
  have hfailed : y.fails = true → v.backend.actions = base := by
    intro hf
    simp only [Session.ending, hf, if_true] at hreturned
    rcases hreturned with h | h
    · exact h.1
    · exact absurd h.1 (by rintro ⟨⟩)
  have hkept : y.fails = false → base ++ [.evmIncrementNonce address] <+: u.backend.actions ∧
      u.backend.actions <+: v.backend.actions := by
    intro hf
    have hkeeps : u.backend.actions <+: v.backend.actions :=
      (Session.Survives.refl.down ⟨.next, trivial, rfl⟩ (by
        rw [Progress.frames_of_current hends.after, Progress.frames_of_current hu]
        exact Nat.succ_lt_succ hends.left) hf).journal hu (.inl hends.after)
    refine ⟨?_, hkeeps⟩
    have habove : (w.after B .next).StandsAbove t.backend.actions t.backend.stack
        t.parents.length := ⟨t, ht, above_self t.chain⟩
    obtain ⟨u', hu', habove⟩ := habove.run hopen
    obtain rfl : u = u' := Option.some.inj (hu.symm.trans hu')
    refine List.IsPrefix.trans ?_ habove.stacked.below
    cases hp : (w.after B .next).progress with
    | running r =>
      obtain rfl : r = t := by rw [hp] at ht; exact Option.some.inj ht
      exact Session.counted hs hp hlen hcreate
    | failed err r =>
      obtain rfl : r = t := by rw [hp] at ht; exact Option.some.inj ht
      have hy : y.fails = true := by rw [Session.fails, Session.OpenRun.failed hp hopen]
      exact absurd (hf.symm.trans hy) Bool.false_ne_true
    | _ => simp [hp, Progress.current] at ht
  refine ⟨hfailed, hkept, ?_⟩
  have hgrown : y.fails = false → v.backend.actions ≠ base := by
    intro hf heq
    have hle := ((hkept hf).1.trans (hkept hf).2).length_le
    rw [heq, List.length_append] at hle
    exact absurd hle (Nat.not_succ_le_self _)
  have haddress : (some (address.setWidth 256) : Option U256) = some 0 ↔ address = 0 :=
    Option.some_inj.trans setWidth_eq_zero_iff
  rcases hends.top hchild hcreate with ⟨hf, hst, htop⟩ | ⟨hf, hst, htop⟩ | ⟨hf, hst, htop⟩
  · exact iff_of_true ⟨fun h => absurd (h.symm.trans hf) Bool.false_ne_true, fun _ => htop,
      iff_of_true htop (hfailed hf)⟩ ⟨hst, .inl hf⟩
  · refine iff_of_false (fun h => ?_) fun h => absurd (h.1.symm.trans hst) Bool.false_ne_true
    exact hgrown hf (h.zero_iff.1 htop)
  · refine ⟨fun h => ⟨hst, .inr fun ha => hgrown hf (h.zero_iff.1 ?_)⟩, fun h => ?_⟩
    · rw [htop, haddress]
      exact ha
    · have hne : address ≠ 0 := h.2.resolve_left fun h => absurd (hf.symm.trans h) Bool.false_ne_true
      refine ⟨fun _ => htop, fun h => absurd (hf.symm.trans h) Bool.false_ne_true, ?_⟩
      rw [htop, haddress]
      exact iff_of_false hne (hgrown hf)

end

/-! ## Two constructors -/

/-- The next step opens a constructor. -/
def Session.constructs [Platform] (B : AccountStorage) (w : Session) : Bool :=
  (w.after B .next).progress.current.any (·.env.reason = .create)

theorem Session.Child.create [Platform] {B : AccountStorage} {w y : Session} {s t u v : Evm}
    (h : Session.Child B w y s t u v) (hcreate : w.constructs B = true) : t.env.reason = .create := by
  rw [Session.constructs, h.opened] at hcreate
  exact of_decide_eq_true hcreate

/-- A platform on which every hash is the same. -/
@[reducible] def Platform.oneHash : Platform := { Platform.bare with keccak := fun _ => 0xABCD }

/-- The creator of a contract without code, by `RETURN` of nothing. -/
def returnCreator : Bytes :=
  [0x5B, 0x62, 0x5F, 0x5F, 0xF3, 0x5F, 0x52, 0x60, 0x03, 0x60, 0x1D, 0x5F, 0xF0, 0x00]

/-- The creator of a contract without code, by no code. -/
def stopCreator : Bytes := [0x5B, 0x5B, 0x5B, 0x5B, 0x5F, 0x5F, 0x5F, 0xF0, 0x00]

set_option maxRecDepth 10000 in
/-- The eighth opcode creates a contract, whose constructor returns. -/
theorem creation_reports_what_happened_return : ∃ (_ : Platform) (B : AccountStorage)
    (w y : Session) (s t u v : Evm), Session.Reached B w ∧ w.progress.current = some s ∧
      (w.after B .next).progress.current = some t ∧ t.parents.length = s.parents.length + 1 ∧
      t.env.reason = .create ∧ Session.OpenRun B t.parents.length (w.after B .next) y ∧
      y.progress.current = some u ∧ (y.after B .next).EndedAt t.parents.length v ∧
      y.fails = false ∧
      CreateReports (s.backend.actions ++ [.evmIncrementNonce s.env.context.contract])
        t.env.context.contract y v := by
  let _ := Platform.oneHash
  let B := AccountStorage.holding fun a => if a = 0x100 then returnCreator else []
  obtain ⟨w, y, s, t, u, v, hchild, htest⟩ := Session.exists_child B (.callOf 0x100) 0x999 7 2
    (fun w y => w.constructs B && (!y.fails && !y.stops &&
      (w.after B .next).progress.current.any fun t => t.env.context.contract ≠ 0))
    (by decide +kernel)
  have hcreate := hchild.create (Bool.and_eq_true_iff.1 htest).1
  obtain ⟨hw, hs, ht, hlen, hopen, hu, -, hended, -⟩ := hchild
  simp only [ht, Bool.and_eq_true, Bool.not_eq_true', Option.any_some, decide_eq_true_eq,
    and_assoc] at htest
  obtain ⟨-, hok, hst, haddress⟩ := htest
  exact ⟨_, B, w, y, s, t, u, v, hw, hs, ht, hlen, hcreate, hopen, hu, hended, hok,
    (creation_reports_what_happened hw hs ht hlen hcreate hopen hu hended).2.2.2
      ⟨hst, .inr haddress⟩⟩

set_option maxRecDepth 10000 in
/-- Init code that is empty stops: the account stays created, and its creator is told zero. -/
theorem stopped_constructor_reports_zero : ∃ (_ : Platform) (B : AccountStorage)
    (w y : Session) (s t u v : Evm), Session.Reached B w ∧ w.progress.current = some s ∧
      (w.after B .next).progress.current = some t ∧ t.parents.length = s.parents.length + 1 ∧
      t.env.reason = .create ∧ Session.OpenRun B t.parents.length (w.after B .next) y ∧
      y.progress.current = some u ∧ (y.after B .next).EndedAt t.parents.length v ∧
      t.env.context.contract ≠ 0 ∧
      ¬CreateReports (s.backend.actions ++ [.evmIncrementNonce s.env.context.contract])
        t.env.context.contract y v := by
  let _ := Platform.oneHash
  let B := AccountStorage.holding fun a => if a = 0x100 then stopCreator else []
  obtain ⟨w, y, s, t, u, v, hchild, htest⟩ := Session.exists_child B (.callOf 0x100) 0x999 7 0
    (fun w y => w.constructs B && (!y.fails &&
      ((y.after B .next).progress.current.any fun v => v.top = some 0) &&
      (w.after B .next).progress.current.any fun t => t.env.context.contract ≠ 0))
    (by decide +kernel)
  have hcreate := hchild.create (Bool.and_eq_true_iff.1 htest).1
  obtain ⟨hw, hs, ht, hlen, hopen, hu, hv, hended, -⟩ := hchild
  simp only [ht, hv, Bool.and_eq_true, Bool.not_eq_true', Option.any_some, decide_eq_true_eq,
    and_assoc] at htest
  obtain ⟨-, hok, htop, haddress⟩ := htest
  refine ⟨_, B, w, y, s, t, u, v, hw, hs, ht, hlen, hcreate, hopen, hu, hended, haddress,
    fun h => haddress ?_⟩
  exact setWidth_eq_zero_iff.1 (Option.some.inj ((h.committed hok).symm.trans htop))

end NeonEvm
