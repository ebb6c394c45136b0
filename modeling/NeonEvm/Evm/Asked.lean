import NeonEvm.Evm.Appends
import NeonEvm.Evm.NoTrace

/-!
# Evm/Asked — contracts ask other programs for themselves only

    journal of a run ∋ an instruction ▸ a step has appended it: its frame has called an extension,
    in its own name or in its caller's

An instruction is appended by the call of an extension, for the frame that calls it; all else that
is appended is no instruction, and what is taken back leaves the others where they stood.
-/

namespace NeonEvm

open Exec ExecutorState Journal

variable [Platform] {B : AccountStorage} {R : Database → Database → Prop}
  {P : List Action → Prop} {Q : Knowledge} {I : SolanaAccounts → Prop} {s t u : Evm} {x y : Session}

/-! ## A step, for any rule -/

theorem Evm.Acts.congr (h : s.Acts B R t) (hb : u.backend = t.backend) : s.Acts B R u := by
  unfold Evm.Acts Evm.Calls Evm.Keeps Evm.Extends
  rw [hb]
  exact h

omit [Platform] in
theorem Evm.Stores.congr {tracer : Option (List Event)} (h : { s with tracer := tracer }.Stores t)
    (hb : u.backend = t.backend) : s.Stores u :=
  ⟨h.reason, h.stacked, hb ▸ h.cache, hb ▸ h.actions⟩

omit [Platform] in
/-- What an opcode concludes with leaves the database alone. -/
theorem backend_conclude {a : OpAction} (hu : (Evm.conclude a t).state = some u) :
    u.backend = t.backend := by
  refine Eq.trans ?_ (congrArg (·.backend) (Evm.chain_traceEndStep a t))
  unfold Evm.conclude at hu
  cases hexit : a.exit? with
  | none =>
    rw [hexit] at hu
    rw [← Option.some.inj hu]
    rfl
  | some status =>
    rw [hexit] at hu
    rw [← Option.some.inj hu]
    rfl

/-- **Going on** leaves the database alone. -/
theorem Session.database_resume (ht : (x.after B .resume).progress.state = some t) :
    ∃ s, x.progress.state = some s ∧ t.backend.toDatabase = s.backend.toDatabase := by
  obtain ⟨isEof, p⟩ := x
  cases p with
  | running s =>
    refine ⟨s, rfl, ?_⟩
    have ht : (NeonEvm.enter s).state = some t := ht
    have hrun := enterVM_run s
    unfold NeonEvm.enter at ht
    rcases henter : enterVM s with ⟨_ | status, u⟩ | ⟨e, u⟩ | p
    · rw [henter] at hrun ht
      obtain rfl := Option.some.inj ht
      exact congrArg (·.toDatabase) hrun.2.2
    · rw [henter] at hrun ht
      obtain rfl := Option.some.inj ht
      exact takeBack_database (e := .commit) hrun.2.2.2.2
    · rw [henter] at hrun
      exact hrun.elim
    · rw [henter] at ht
      cases ht
  | _ => exact ⟨t, ht, rfl⟩

/-- **A step acts for its frame**, or a constructor stores its code. -/
theorem Rule.acts_after [Std.Refl R] [IsTrans Database R] (hR : Rule B R P) (k : Session.Kind)
    (ht : (x.after B k).progress.state = some t) :
    ∃ s, x.progress.state = some s ∧ (s.Acts B R t ∨ s.Stores t) := by
  have stays {s t : Evm} (h : t.backend.toDatabase = s.backend.toDatabase) : s.Acts B R t :=
    ⟨_, .inl rfl, .inl (.of_eq h)⟩
  obtain ⟨isEof, p⟩ := x
  cases k with
  | next =>
    have ht : (micro B isEof p).state = some t := ht
    cases p with
    | running s =>
      refine ⟨s, rfl, ?_⟩
      rcases Evm.runOpcode_run B isEof s with ⟨-, f, hf⟩ | ⟨op, tracer, -, hrun⟩
      · rw [micro_of_panic hf] at ht
        cases ht
      · have hop := hR.appends_opcode (s := { s with tracer := tracer }) op
        rcases ho : op.run B { s with tracer := tracer } with ⟨a, u⟩ | ⟨e, u⟩ | p
        · rw [ho] at hop
          rw [micro_of_ok (hrun.trans ho)] at ht
          have hb := backend_conclude ht
          exact Or.imp (fun h => Evm.Acts.congr (s := s) h hb)
            (fun h => h.1.congr hb) hop
        · rw [ho] at hop
          rw [micro_of_err (hrun.trans ho)] at ht
          obtain rfl := Option.some.inj ht
          exact Or.imp id (fun h => h.1.congr rfl) hop
        · rw [micro_of_panic (hrun.trans ho)] at ht
          cases ht
    | failed e s =>
      refine ⟨s, rfl, .inl ?_⟩
      have hend : (Evm.handleError e s).Within (Evm.Keeps R) s := hR.keeps_opcodeRevertImpl _ s
      unfold micro at ht
      dsimp only at ht
      rcases ho : Evm.handleError e s with ⟨a, u⟩ | ⟨e, u⟩ | p
      · rw [ho] at hend ht
        exact Evm.Acts.congr ⟨_, .inl rfl, .inl hend⟩ (backend_conclude ht)
      · rw [ho] at hend ht
        obtain rfl := Option.some.inj ht
        exact ⟨_, .inl rfl, .inl hend⟩
      · rw [ho] at ht
        cases ht
    | exited status s => exact ⟨t, ht, .inl (stays rfl)⟩
    | escaped e s => exact ⟨t, ht, .inl (stays rfl)⟩
    | panicked p => cases ht
  | resume =>
    obtain ⟨s, hs, hdatabase⟩ := Session.database_resume ht
    exact ⟨s, hs, .inl (stays hdatabase)⟩

/-! ## What is asked -/

/-- No instruction among the actions. -/
def AsksNothing (acts : List Action) : Prop := ∀ x ∈ acts, x.isInstruction = false

omit [Platform] in
theorem AsksNothing.built {acts : List Action} (h : Built AsksNothing acts) : AsksNothing acts := by
  induction h with
  | nil => exact fun x hx => (List.not_mem_nil hx).elim
  | append _ h ih => exact fun x hx => (List.mem_append.1 hx).elim (ih x) (h x)

omit [Platform] in
theorem AsksNothing.single {x : Action} (h : x.isInstruction = false) : AsksNothing [x] :=
  fun y hy => by rwa [List.mem_singleton.1 hy]

/-- **Nothing is asked for** — the instructions of the second journal stand in the first. -/
structure Unasked (I : SolanaAccounts → Prop) (d d' : Database) : Prop where
  known : I d.cache.solanaAccounts → I d'.cache.solanaAccounts
  stands : ∀ {before : List Action} {a : Action}, Stands before a d'.actions →
    a.isInstruction = true → Stands before a d.actions

instance : Std.Refl (Unasked I) := ⟨fun _ => ⟨id, fun h _ => h⟩⟩

instance : IsTrans Database (Unasked I) :=
  ⟨fun _ _ _ h h' => ⟨fun hd => h'.known (h.known hd), fun ha hi => h.stands (h'.stands ha hi) hi⟩⟩

omit [Platform] in
/-- Appending no instruction. -/
theorem Unasked.of_append {d d' : Database} {acts : List Action}
    (hknown : I d.cache.solanaAccounts → I d'.cache.solanaAccounts) (hnothing : AsksNothing acts)
    (hacts : d'.actions = d.actions ++ acts) : Unasked I d d' where
  known := hknown
  stands {before a} ha hi := by
    refine (stands_or_below ⟨acts, hacts.symm⟩ ha).resolve_right ?_
    rintro ⟨front, rfl⟩
    obtain ⟨after, hafter⟩ := ha
    rw [hacts, List.append_assoc] at hafter
    have hmem : a ∈ acts := by
      rw [List.append_cancel_left hafter]
      exact List.mem_append_right _ List.mem_cons_self
    rw [hnothing a hmem] at hi
    cases hi

/-- **The rule of the requests.** -/
theorem unasked_rule (hQ : Tells B Q I) : Rule B (Unasked I) AsksNothing where
  append h := by
    obtain ⟨acts, hbuilt, hacts⟩ := h.actions
    exact .of_append (hQ.grows (h.mono fun _ _ => trivial)) (AsksNothing.built hbuilt) hacts
  take _ _ := ⟨id, fun h _ => h.of_below (List.take_prefix _ _)⟩
  plain _ hx := .single hx

/-- **What a step asks** — an instruction that stands behind it stood there before, or the step has
appended it, for its frame. -/
structure Evm.AsksFor (B : AccountStorage) (Q : Knowledge) (I : SolanaAccounts → Prop) (s t : Evm) :
    Prop where
  known : I t.backend.cache.solanaAccounts
  asked : ∀ {before after : List Action} {a : Action}, t.backend.actions = before ++ a :: after →
    a.isInstruction = true → Stands before a s.backend.actions ∨
      s.backend.actions <+: before ∧ ∃ caller, s.Asks caller ∧ Request B caller Q before after a

/-- **A step asks for its frame.** -/
theorem Session.asksFor_after (hQ : Tells B Q I) (k : Session.Kind)
    (ht : (x.after B k).progress.state = some t) :
    ∃ s, x.progress.state = some s ∧ (I s.backend.cache.solanaAccounts → s.AsksFor B Q I t) := by
  obtain ⟨s, hs, h⟩ := (unasked_rule hQ).acts_after k ht
  refine ⟨s, hs, fun hI => ?_⟩
  have unasked {t : Evm} (h : Unasked I s.backend.toDatabase t.backend.toDatabase) :
      s.AsksFor B Q I t := ⟨h.known hI, fun heq hi => .inl (h.stands ⟨_, heq⟩ hi)⟩
  rcases h with ⟨caller, hcaller, h | h⟩ | h
  · exact unasked h
  · obtain ⟨d, context, address, input, isStatic, x, hd, hgrows, rfl, hx, hleaves⟩ := h
    have hasks := (requests_callPrecompileExtension hQ hx).leaves hleaves (hd.known hI)
    refine ⟨hasks.known, fun {before after a} heq hi => ?_⟩
    rcases stands_or_below hasks.grows ⟨after, heq⟩ with hin | hin
    · exact .inl (hd.stands hin hi)
    · exact .inr ⟨hgrows.trans hin, context.caller, hcaller, hasks.request heq hin hi⟩
  · obtain ⟨code, hcode⟩ := h.actions
    exact unasked (.of_append (fun hI => h.cache ▸ hI) (.single rfl) hcode)

/-! ## Runs -/

/-- **A step of the run has asked for it** — behind `before`, in one of the names of its frame. -/
def Session.Asked (B : AccountStorage) (Q : Knowledge) (x y : Session) (before : List Action)
    (a : Action) : Prop :=
  ∃ (w : Session) (k : Session.Kind) (s t : Evm) (after : List Action) (caller : Address),
    Session.Run B (fun _ _ => True) x w ∧ Session.Run B (fun _ _ => True) (w.after B k) y ∧
    w.progress.state = some s ∧ (w.after B k).progress.state = some t ∧
    t.backend.actions = before ++ a :: after ∧ s.backend.actions <+: before ∧
    s.Asks caller ∧ Request B caller Q before after a

/-- **What a run appends is asked for.** -/
theorem Session.asked_run (hQ : Tells B Q I) (h : Session.Run B (fun _ _ => True) x y)
    (hI : ∀ s, x.progress.state = some s → I s.backend.cache.solanaAccounts)
    (ht : y.progress.state = some t) :
    I t.backend.cache.solanaAccounts ∧ ∀ {before : List Action} {a : Action},
      Stands before a t.backend.actions → a.isInstruction = true →
      (∃ s, x.progress.state = some s ∧ Stands before a s.backend.actions) ∨
        Session.Asked B Q x y before a := by
  induction h generalizing t with
  | refl => exact ⟨hI t ht, fun ha _ => .inl ⟨t, ht, ha⟩⟩
  | tail hrun hstep ih =>
    rename_i w v
    obtain ⟨k, -, rfl⟩ := hstep
    obtain ⟨s, hs, hasks⟩ := Session.asksFor_after hQ k ht
    obtain ⟨hknown, hasked⟩ := ih hs
    obtain ⟨hknown', hstep⟩ := hasks hknown
    refine ⟨hknown', fun {before a} ha hi => ?_⟩
    have hw : Session.Run B (fun _ _ => True) w (w.after B k) := .single ⟨k, trivial, rfl⟩
    obtain ⟨after, heq⟩ := ha
    rcases hstep heq hi with hstood | ⟨hbelow, caller, hcaller, hrequest⟩
    · refine (hasked hstood hi).imp_right ?_
      rintro ⟨u, j, r, r', rest, caller, hu, hv, hr⟩
      exact ⟨u, j, r, r', rest, caller, hu, hv.trans hw, hr⟩
    · exact .inr ⟨w, k, s, t, after, caller, hrun, .refl, hs, ht, heq, hbelow, hcaller, hrequest⟩

/-! ## The first frame -/

/-- **A new machine** asks for nothing. -/
theorem asksNothing_new (trx : Transaction) (origin : Address) :
    Moves (fun b c : ExecutorState => AsksNothing b.actions → AsksNothing c.actions)
      (Machine.new B trx origin) := by
  let R (b c : ExecutorState) : Prop := AsksNothing b.actions → AsksNothing c.actions
  have : Std.Refl R := ⟨fun _ => id⟩
  have : IsTrans ExecutorState R := ⟨fun _ _ _ h h' hb => h' (h hb)⟩
  have db {α : Type} {x : Db α} (hx : Moves (Grows B AsksNothing) x) : Moves R (onDatabase x) :=
    (moves_onDatabase hx).mono fun b c h hb => by
      obtain ⟨acts, hbuilt, hacts⟩ := h.1.actions
      have hacts : c.actions = b.actions ++ acts := hacts
      rw [hacts]
      exact fun x hx => (List.mem_append.1 hx).elim (hb x) (AsksNothing.built hbuilt x)
  have push (a : Action) (ha : a.isInstruction = false) : Moves R (onDatabase (pushAction a)) :=
    db (moves_pushAction (.single ha))
  have snapshot : Moves R (modify ExecutorState.snapshot : Exec Fault Error ExecutorState Unit) :=
    moves_modify fun b => refl_of R b
  show Moves R _
  refine moves_bind (db (Machine.moves_checkTransaction trx origin)) fun _ => ?_
  rcases trx.target with _ | target
  · exact moves_bind (db (moves_nonce _)) fun _ => moves_bind (moves_failIf _ _) fun _ =>
      moves_bind (db (moves_codeSize _)) fun _ => moves_bind (moves_failIf _ _) fun _ =>
      moves_bind (push (.evmIncrementNonce _) rfl) fun _ => moves_bind snapshot fun _ =>
      moves_bind (push (.evmIncrementNonce _) rfl) fun _ =>
      moves_bind (db (moves_transfer fun _ _ => .single rfl)) fun _ =>
      moves_bind (moves_lift _) fun _ => moves_pure _
  · exact moves_bind (push (.evmIncrementNonce _) rfl) fun _ => moves_bind snapshot fun _ =>
      moves_bind (db (moves_transfer fun _ _ => .single rfl)) fun _ =>
      moves_bind (db (moves_code _)) fun _ => moves_bind (moves_lift _) fun _ => moves_pure _

/-- **A run that begins** has asked for nothing. -/
theorem Session.Starts.asksNothing {trx : Transaction} {origin : Address}
    (h : Session.Starts B trx origin x) (hs : x.progress.state = some s) :
    AsksNothing s.backend.actions := by
  obtain ⟨m, b, tracer, hnew, rfl⟩ := h
  obtain ⟨r, hr, hdatabase⟩ := Session.database_resume (B := B)
    (x := ⟨true, .running ⟨m.frame, m.parents, b, tracer⟩⟩) hs
  obtain rfl := Option.some.inj hr
  have hactions : s.backend.actions = b.actions := congrArg (·.actions) hdatabase
  rw [hactions]
  exact (asksNothing_new (B := B) trx origin).returns _ _ _ hnew
    fun _ hx => (List.not_mem_nil hx).elim

/-- **A run from its beginning** has asked for every instruction that there is. -/
theorem Session.Starts.asked {trx : Transaction} {origin : Address} (hQ : Tells B Q I)
    (hstart : Session.Starts B trx origin x) (hrun : Session.Run B (fun _ _ => True) x y)
    (hI : ∀ s, x.progress.state = some s → I s.backend.cache.solanaAccounts)
    (ht : y.progress.state = some t) {before : List Action} {a : Action}
    (ha : Stands before a t.backend.actions) (hi : a.isInstruction = true) :
    Session.Asked B Q x y before a := by
  refine ((Session.asked_run hQ hrun hI ht).2 ha hi).resolve_left ?_
  rintro ⟨s, hs, after, hstands⟩
  have hmem : a ∈ s.backend.actions := by
    rw [hstands]
    exact List.mem_append_right _ List.mem_cons_self
  rw [hstart.asksNothing hs a hmem] at hi
  cases hi

/-- **Contracts ask for themselves only** — every instruction in the journal of a run was appended
by a step, whose frame has called an extension; its authority and its signer are the accounts of
that frame's contract or of its caller; the operator pays the rent that a derived account lacks, and
the pool pays the withdrawal that follows. -/
theorem contracts_ask_for_themselves {trx : Transaction} {origin : Address}
    (hB : Keyed B.cloneSolanaAccount) (hstart : Session.Starts B trx origin x)
    (hrun : Session.Run B (fun _ _ => True) x y) (ht : y.progress.state = some t)
    {before after : List Action} {a : Action} (ha : t.backend.actions = before ++ a :: after)
    (hi : a.isInstruction = true) : Session.Asked B (AccountBehind B) x y before a :=
  hstart.asked (tells_accountBehind hB) hrun hstart.cachedAt ht ⟨after, ha⟩ hi

omit [Platform] in
/-- A call of `createMasterEdition`. -/
def editionCode : Bytes :=
  [0x63, 0x4a, 0xe8, 0xb6, 0x6b, 0x60, 0xE0, 0x1B, 0x5F, 0x52, 0x5F, 0x5F, 0x60, 0x44, 0x5F, 0x5F,
    0x73, 0xff, 0, 0, 0, 0, 0, 0, 0, 0, 0, 0, 0, 0, 0, 0, 0, 0, 0, 0, 0x05, 0x5F, 0xF1, 0x00]

omit [Platform] in
set_option maxRecDepth 10000 in
/-- The instruction is in the journal behind the call. -/
theorem contracts_ask_for_themselves_edition : ∃ (_ : Platform) (B : AccountStorage) (x y : Session)
    (t : Evm) (before after : List Action) (a : Action), Session.Starts B (.callOf 0x100) 0x999 x ∧
      Session.Run B (fun _ _ => True) x y ∧ y.progress.state = some t ∧
      t.backend.actions = before ++ a :: after ∧ a.isInstruction = true ∧
      Session.Asked B (AccountBehind B) x y before a := by
  let _ := Platform.bare
  let B := AccountStorage.holding fun a => if a = 0x100 then editionCode else []
  have htest : (Machine.new B (.callOf 0x100) 0x999 (ExecutorState.new B)).okAnd fun m b =>
      ((Session.enter ⟨m.frame, m.parents, b, none⟩).follow B (fun _ => true) 13).any fun y =>
        y.progress.state.any fun t => t.backend.actions.any Action.isInstruction := by
    decide +kernel
  obtain ⟨m, b, hnew, htest⟩ := Outcome.exists_of_okAnd htest
  obtain ⟨y, hy, htest⟩ := Option.any_eq_true _ _ |>.1 htest
  obtain ⟨t, ht, htest⟩ := Option.any_eq_true _ _ |>.1 htest
  obtain ⟨a, ha, hi⟩ := List.any_eq_true.1 htest
  obtain ⟨before, after, ha⟩ := List.append_of_mem ha
  have hstart : Session.Starts B (.callOf 0x100) 0x999
      (Session.enter ⟨m.frame, m.parents, b, none⟩) := ⟨m, b, none, hnew, rfl⟩
  have hrun := Session.follow_run (G := fun _ _ => True) (fun _ _ => trivial) hy
  exact ⟨_, B, _, y, t, before, after, a, hstart, hrun, ht, ha, hi,
    contracts_ask_for_themselves keyed_none hstart hrun ht ha hi⟩

end NeonEvm
