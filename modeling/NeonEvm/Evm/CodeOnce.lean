import NeonEvm.Evm.Constructors

/-!
# Evm/CodeOnce — an address gets code at most once

    opened    nothing is at the address · its nonce is counted over a snapshot
    RETURN    the address gets its code, and the snapshot is committed
    failure   the journal goes back to the snapshot, and nothing is at the address again

The frames, with the marks of their snapshots, are the layers of `Lib/Redeem`; a constructor is open
for its address.
-/

namespace NeonEvm

open Exec ExecutorState Chain

/-- The layer of a frame: a constructor is open for its address. -/
def CallEnv.layer (env : CallEnv) (mark : ℕ) : Redeem.Layer Address :=
  ⟨if env.reason = .create then some env.context.contract else none, mark⟩

/-- The layers of the frames. -/
def layersOf (envs : List CallEnv) (marks : List ℕ) : List (Redeem.Layer Address) :=
  List.zipWith CallEnv.layer envs marks

namespace Chain

/-- The layers of a chain, the current frame first. -/
def layers (c : Chain) : List (Redeem.Layer Address) :=
  layersOf (c.env :: c.parents.map (·.env)) c.backend.stack

/-- **A chain in order** — in its journal every address gets code at most once, and the open
constructors may still give theirs. -/
structure InOrder (B : AccountStorage) (c : Chain) : Prop where
  orderly : deployments.Orderly B.Vacant c.backend.actions
  held : deployments.Held B.Vacant c.layers c.backend.actions

/-- A chain whose frame has failed: it is in order again behind the frame. -/
structure Reverts (B : AccountStorage) (c : Chain) : Prop where
  orderly : deployments.Orderly B.Vacant c.backend.actions
  held : ∀ m ms, c.backend.stack = m :: ms → m ≤ c.backend.actions.length ∧
    deployments.Held B.Vacant (layersOf (c.parents.map (·.env)) ms) (c.backend.actions.take m)

variable {B : AccountStorage} {c d m : Chain} {acts : List Action} {parent frame : Frame}
  {mark : ℕ} {marks : List ℕ} {child : CallEnv}

theorem layers_eq (h : c.backend.stack = mark :: marks) :
    c.layers = c.env.layer mark :: layersOf (c.parents.map (·.env)) marks := by
  rw [layers, h]
  rfl

theorem InOrder.congr (h : c.InOrder B) (hcd : d = c) : d.InOrder B := hcd ▸ h

theorem InOrder.reverts (h : c.InOrder B) : c.Reverts B := by
  refine ⟨h.orderly, fun mark marks hstack => ?_⟩
  have hheld := h.held
  rw [layers_eq hstack] at hheld
  exact ⟨hheld.marked _ List.mem_cons_self, hheld.cut⟩

/-- **Work without a code.** -/
theorem InOrder.append (h : c.InOrder B) (henv : d.env = c.env) (hparents : d.parents = c.parents)
    (hstack : d.backend.stack = c.backend.stack)
    (hactions : d.backend.actions = c.backend.actions ++ acts) (hcodes : codedBy acts = []) :
    d.InOrder B := by
  refine ⟨hactions ▸ h.orderly.append hcodes, ?_⟩
  rw [layers, henv, hparents, hstack, hactions]
  exact h.held.append hcodes

/-- The parent of a frame, behind its snapshot. -/
theorem layers_parent (hparents : m.parents = parent :: d.parents) (henv : d.env = parent.env) :
    layersOf (m.parents.map (·.env)) d.backend.stack = d.layers := by
  rw [hparents, layers, henv]
  rfl

/-- **A frame is committed.** -/
theorem InOrder.commit (h : m.InOrder B) (hparents : m.parents = parent :: d.parents)
    (henv : d.env = parent.env) (hb : commitSnapshot m.backend = .ok () d.backend) :
    d.InOrder B := by
  obtain ⟨hstacked, hjournal, -⟩ := Ending.takeBack_ok (e := .commit) hb
  obtain ⟨mark, marks, hstack⟩ := List.exists_cons_of_ne_nil hstacked
  have hactions : d.backend.actions = m.backend.actions := congrArg Journal.entries hjournal
  have hmarks : d.backend.stack = marks :=
    (congrArg Journal.marks hjournal).trans (congrArg List.tail hstack)
  have hheld := h.held
  rw [layers_eq hstack] at hheld
  refine ⟨hactions ▸ h.orderly, ?_⟩
  rw [← layers_parent hparents henv, hmarks, hactions]
  exact hheld.tail

/-- Where a journal is cut, if the frame has only appended to it. -/
theorem Reverts.cut (h : c.Reverts B) (hstack : m.backend.stack = c.backend.stack)
    (hactions : m.backend.actions = c.backend.actions ++ acts) {b : ExecutorState}
    (hb : revertSnapshot m.backend = .ok () b) :
    ∃ mark marks, c.backend.stack = mark :: marks ∧ b.stack = marks ∧
      b.actions = c.backend.actions.take mark := by
  obtain ⟨hstacked, hjournal, -⟩ := Ending.takeBack_ok (e := .revert) hb
  rw [hstack] at hstacked
  obtain ⟨mark, marks, hmarks⟩ := List.exists_cons_of_ne_nil hstacked
  refine ⟨mark, marks, hmarks, ?_, ?_⟩
  · exact (congrArg Journal.marks hjournal).trans (congrArg List.tail (hstack.trans hmarks))
  · have hcut : b.actions = m.backend.actions.take (m.backend.stack.headD 0) :=
      congrArg Journal.entries hjournal
    rw [hcut, hstack, hmarks, hactions, List.headD_cons,
      List.take_append_of_le_length (h.held mark marks hmarks).1]

/-- Addresses that a chain gives code to, if it gives no more than another. -/
theorem codeless_of_mute {as bs : List Action} (h : bs = as ++ acts)
    (hmute : codedBy bs <+: codedBy as) : codedBy acts = [] := by
  have hlen := hmute.length_le
  rw [h, codedBy, Redeem.redeemed_append, List.length_append] at hlen
  exact List.length_eq_zero_iff.1 (Nat.le_zero.1 (Nat.le_of_add_le_add_left hlen))

section

variable [Platform] {O : CallEnv → Prop}

/-- **A failed frame is left.** -/
theorem Reverts.leave (h : c.Reverts B) (hl : Leave B .revert c d m parent) : d.InOrder B := by
  obtain ⟨acts, -, hactions⟩ := hl.work.grows.actions
  obtain ⟨mark, marks, hstack, hmarks, hcut⟩ := h.cut hl.work.stack hactions hl.takeBack
  refine ⟨hcut ▸ h.orderly.take mark, ?_⟩
  rw [← layers_parent hl.parents hl.env, hl.work.parents, hmarks, hcut]
  exact (h.held mark marks hstack).2

theorem Reverts.exit (h : c.Reverts B) (hx : Exit B .revert c d m) :
    deployments.Orderly B.Vacant d.backend.actions := by
  obtain ⟨acts, -, hactions⟩ := hx.work.grows.actions
  obtain ⟨mark, -, -, -, hcut⟩ := h.cut hx.work.stack hactions hx.takeBack
  exact hcut ▸ h.orderly.take mark

/-- A child is entered over the layers of its caller. -/
theorem Enter.layers (h : Enter B c d O m frame child) :
    d.layers = child.layer m.backend.actions.length :: c.layers := by
  rw [Chain.layers, h.work.env, h.work.parents, h.work.stack, List.map_cons, h.frameEnv,
    h.ready.work.parents]
  show layersOf _ (m.backend.actions.length :: m.backend.stack) = _
  rw [h.ready.work.stack]
  rfl

/-- What is appended on the entry of a child. -/
theorem Enter.actions (h : Enter B c d O m frame child) :
    ∃ acts, d.backend.actions =
      (c.backend.actions ++ opening c.env child.reason) ++ acts ∧
      m.backend.actions = c.backend.actions ++ opening c.env child.reason := by
  obtain ⟨acts, -, hactions⟩ := h.work.grows.actions
  refine ⟨acts, ?_, h.ready.actions⟩
  rw [← h.ready.actions]
  exact hactions

omit [Platform] in
theorem codedBy_opening (env : CallEnv) (reason : Reason) : codedBy (opening env reason) = [] := by
  cases reason <;> rfl

/-- **A child that fails at once** has given no code. -/
theorem InOrder.enter_failed (h : c.InOrder B) (henter : Enter B c d O m frame child)
    (hmute : codedBy d.backend.actions <+: codedBy c.backend.actions) : d.Reverts B := by
  obtain ⟨acts, hactions, hm⟩ := henter.actions
  have hcodes := codeless_of_mute (hactions.trans (List.append_assoc ..)) hmute
  refine ⟨?_, fun mark marks hstack => ?_⟩
  · rw [hactions, List.append_assoc]
    exact h.orderly.append hcodes
  · rw [henter.work.stack] at hstack
    obtain ⟨rfl, rfl⟩ := List.cons.inj hstack
    have hheld := h.held.append (codedBy_opening c.env child.reason)
    rw [← hm] at hheld hactions
    rw [henter.work.parents, List.map_cons, henter.frameEnv, henter.ready.work.parents,
      henter.ready.work.stack, hactions, List.take_left, List.length_append]
    exact ⟨Nat.le_add_right _ _, hheld⟩

/-- **A child that goes on** is called, or a constructor where nothing was. -/
theorem InOrder.enter (h : c.InOrder B) (henter : Enter B c d O m frame child)
    (hmute : codedBy d.backend.actions <+: codedBy c.backend.actions)
    (hnew : child.reason = .create → B.Vacant child.context.contract ∧
      child.context.contract ∉
        countedBy (c.backend.actions ++ [.evmIncrementNonce c.env.context.contract]) ∧
      c.backend.actions ++ [.evmIncrementNonce c.env.context.contract] ++
        [.evmIncrementNonce child.context.contract] <+: d.backend.actions) : d.InOrder B := by
  obtain ⟨acts, hactions, hm⟩ := henter.actions
  have hcodes := codeless_of_mute (hactions.trans (List.append_assoc ..)) hmute
  refine ⟨?_, ?_⟩
  · rw [hactions, List.append_assoc]
    exact h.orderly.append hcodes
  · rw [henter.layers, hm]
    have hheld := h.held.append (codedBy_opening c.env child.reason)
    have hlog := h.orderly.append (codedBy_opening c.env child.reason)
    by_cases hreason : child.reason = .create
    · obtain ⟨hvacant, hfresh, more, hmore⟩ := hnew hreason
      rw [CallEnv.layer, if_pos hreason]
      rw [hreason] at hheld hlog hactions ⊢
      rw [List.append_assoc, List.singleton_append] at hmore
      have hacts : acts = .evmIncrementNonce child.context.contract :: more :=
        List.append_cancel_left (hactions.symm.trans hmore.symm)
      rw [hactions, hacts]
      refine hheld.openSome hlog hvacant hfresh rfl ?_
      rw [← hacts]
      exact (List.append_eq_nil_iff.1 (List.filterMap_append.symm.trans hcodes)).2
    · rw [CallEnv.layer, if_neg hreason, hactions]
      refine hheld.openNone.append ?_
      exact (List.append_eq_nil_iff.1 (List.filterMap_append.symm.trans hcodes)).2

end

end Chain

variable {B : AccountStorage} {s t u : Evm}

/-- **The code of a constructor** is the first of its address. -/
theorem Chain.InOrder.stores (h : s.chain.InOrder B) (hs : s.Stores t) :
    deployments.Orderly B.Vacant t.backend.actions ∧ ∀ mark marks,
      s.backend.stack = mark :: marks →
        deployments.Held B.Vacant (layersOf (s.parents.map (·.env)) marks) t.backend.actions := by
  obtain ⟨mark, marks, hstack⟩ := List.exists_cons_of_ne_nil hs.stacked
  obtain ⟨code, hactions⟩ := hs.actions
  have hheld := h.held
  rw [layers_eq (show s.chain.backend.stack = mark :: marks from hstack)] at hheld
  have hredeem := hheld.redeem (a := .evmSetCode s.env.context.contract code) h.orderly
    (if_pos hs.reason) rfl
  rw [hactions]
  refine ⟨hredeem.1, fun mark' marks' hstack' => ?_⟩
  obtain ⟨-, rfl⟩ := List.cons.inj (hstack.symm.trans hstack')
  exact hredeem.2

section

variable [Platform] {e : Ending} {O : CallEnv → Prop}

/-- **A step between two machines** keeps the order, but where it enters a child. -/
theorem Chain.InOrder.moved (h : s.chain.InOrder B) (hm : Moved B e s.chain O t.chain)
    (hcodes : s.Mute t ∨ s.Stores t ∧ t.parents.length < s.parents.length) :
    t.chain.InOrder B ∨
      s.Mute t ∧ ∃ m frame child, Enter B s.chain t.chain O m frame child := by
  have mute (hle : s.parents.length ≤ t.parents.length) : s.Mute t :=
    hcodes.resolve_right fun hstores => absurd hstores.2 (Nat.not_lt.2 hle)
  rcases hm with hw | henter | hleave | ⟨henter, hleave⟩
  · obtain ⟨acts, -, hactions⟩ := hw.grows.actions
    have hmute := mute (congrArg List.length hw.parents).ge
    exact .inl (h.append hw.env hw.parents hw.stack hactions (codeless_of_mute hactions hmute))
  · have hlonger : t.parents.length = s.parents.length + 1 := by
      rw [← Evm.chain_parents t, henter.work.parents, henter.ready.work.parents]
      rfl
    exact .inr ⟨mute (hlonger ▸ Nat.le_succ _), _, _, _, henter⟩
  · cases e with
    | revert => exact .inl (h.reverts.leave hleave)
    | commit =>
      rename_i m parent
      rcases hcodes with hmute | ⟨hstores, -⟩
      · obtain ⟨acts, -, hactions⟩ := hleave.work.grows.actions
        have hcommitted : t.backend.actions = m.backend.actions :=
          congrArg Journal.entries (Ending.takeBack_ok hleave.takeBack).2.1
        have hm : m.InOrder B := h.append hleave.work.env hleave.work.parents hleave.work.stack
          hactions (codeless_of_mute (hcommitted.trans hactions) hmute)
        exact .inl (hm.commit hleave.parents hleave.env hleave.takeBack)
      · obtain ⟨horderly, hheld⟩ := h.stores hstores
        obtain ⟨hstacked, hjournal, -⟩ := Ending.takeBack_ok hleave.takeBack
        obtain ⟨mark, marks, hstack⟩ := List.exists_cons_of_ne_nil hstacked
        have hmarks : t.backend.stack = marks :=
          (congrArg Journal.marks hjournal).trans (congrArg List.tail hstack)
        refine .inl ⟨horderly, ?_⟩
        rw [← layers_parent hleave.parents hleave.env, hleave.work.parents]
        exact hmarks ▸ hheld mark marks (hleave.work.stack.symm.trans hstack)
  · rename_i m m' u frame parent child
    obtain ⟨acts, hactions, -⟩ := henter.actions
    obtain ⟨acts', -, hactions'⟩ := hleave.work.grows.actions
    have hcons : frame :: m.parents = parent :: t.parents :=
      (hleave.work.parents.trans henter.work.parents).symm.trans hleave.parents
    obtain ⟨rfl, htail⟩ := List.cons.inj hcons
    have hsame : t.parents = s.parents := htail.symm.trans henter.ready.work.parents
    obtain ⟨-, hjournal, -⟩ := Ending.takeBack_ok hleave.takeBack
    have hcommitted : t.backend.actions = m'.backend.actions := congrArg Journal.entries hjournal
    have hall : t.backend.actions = s.backend.actions ++
        (opening s.env child.reason ++ acts ++ acts') := by
      rw [hcommitted, ← List.append_assoc, ← List.append_assoc]
      exact hactions'.trans (congrArg (· ++ acts') hactions)
    have hstack : t.backend.stack = s.backend.stack := by
      refine (congrArg Journal.marks hjournal).trans ?_
      show m'.backend.stack.tail = _
      rw [hleave.work.stack, henter.work.stack]
      exact henter.ready.work.stack
    exact .inl (h.append (hleave.env.trans henter.frameEnv) hsame hstack hall
      (codeless_of_mute hall (mute (congrArg List.length hsame).ge)))

/-- **An end of the run** keeps the order. -/
theorem Chain.InOrder.exit {m : Chain} (h : s.chain.InOrder B) (hx : Exit B e s.chain t.chain m)
    (hcodes : s.Mute t ∨ s.Stores t) : deployments.Orderly B.Vacant t.backend.actions := by
  cases e with
  | revert => exact h.reverts.exit hx
  | commit =>
    rcases hcodes with hmute | hstores
    · obtain ⟨acts, -, hactions⟩ := hx.work.grows.actions
      have hcommitted : t.backend.actions = s.backend.actions ++ acts :=
        (congrArg Journal.entries (Ending.takeBack_ok hx.takeBack).2.1).trans hactions
      rw [hcommitted]
      exact h.orderly.append (codeless_of_mute hcommitted hmute)
    · exact (h.stores hstores).1

/-! ## Runs -/

omit [Platform] in
/-- The journal is in order, and so is the chain while the run goes on. -/
def Progress.CodeOnce (B : AccountStorage) : Progress → Prop
  | .running s => s.chain.InOrder B
  | .failed _ s => s.chain.Reverts B
  | .exited _ s | .escaped _ s => deployments.Orderly B.Vacant s.backend.actions
  | .panicked _ => True

omit [Platform] in
theorem Progress.CodeOnce.orderly {p : Progress} (h : p.CodeOnce B) (hs : p.state = some s) :
    deployments.Orderly B.Vacant s.backend.actions := by
  cases p with
  | running r =>
    obtain rfl := Option.some.inj hs
    exact InOrder.orderly h
  | failed e r =>
    obtain rfl := Option.some.inj hs
    exact Reverts.orderly h
  | exited status r =>
    obtain rfl := Option.some.inj hs
    exact h
  | escaped e r =>
    obtain rfl := Option.some.inj hs
    exact h
  | panicked p => cases hs

omit [Platform] in
/-- What a turn makes of an opcode that has returned. -/
theorem codeOnce_conclude {a : OpAction} (hgo : a.exit? = none → u.chain.InOrder B)
    (hend : a.exit? ≠ none → deployments.Orderly B.Vacant u.backend.actions) :
    (Evm.conclude a u).CodeOnce B := by
  have hchain := Evm.chain_traceEndStep a u
  unfold Evm.conclude
  rcases hexit : a.exit? with _ | status
  · exact (hgo hexit).congr hchain
  · show deployments.Orderly B.Vacant (Evm.traceEndStep a u).chain.backend.actions
    rw [hchain]
    exact hend (by rw [hexit]; nofun)

/-- **An opcode keeps the order.** -/
theorem Chain.InOrder.opcode (h : s.chain.InOrder B) (op : Opcode) :
    (op.run B s).Sat
      (fun a t => (a.exit? = none → t.chain.InOrder B) ∧
        (a.exit? ≠ none → deployments.Orderly B.Vacant t.backend.actions))
      (fun _ t => t.chain.Reverts B) fun _ => True := by
  have hlands := lands_opcode (B := B) op s
  have hcodes := codesOnce_opcode (B := B) op s
  have hcounts := countsNew_opcode (B := B) (s := s) op
  rcases hrun : op.run B s with ⟨a, t⟩ | ⟨e, t⟩ | p
  · rw [hrun] at hlands hcodes hcounts
    rcases hlands with ⟨ha, hm⟩ | ⟨ha, m, hx⟩ | ⟨-, rfl, hw⟩
    · refine ⟨fun _ => ?_, fun hne => absurd ha hne⟩
      have hcodes' : s.Mute t ∨ s.Stores t ∧ t.parents.length < s.parents.length :=
        hcodes.imp_right fun ⟨hstores, hleft⟩ => ⟨hstores, hleft.resolve_left fun hne => hne ha⟩
      rcases h.moved hm hcodes' with hin | ⟨hmute, m, frame, child, henter⟩
      · exact hin
      · have hchild : t.env = child := henter.work.env
        have hlen : t.parents.length = s.parents.length + 1 := by
          rw [← Evm.chain_parents t, henter.work.parents, henter.ready.work.parents]
          rfl
        refine h.enter henter hmute fun hreason => ?_
        rw [← hchild] at hreason ⊢
        obtain ⟨args, hargs⟩ := exists_popCreation hrun hlen hreason
        obtain ⟨c, u, -, hcontract, hvacant, hfresh⟩ := opcode_create_ok hargs h.orderly hrun
        rw [← hcontract] at hvacant hfresh
        exact ⟨hvacant, hfresh, hcounts hlen hreason⟩
    · exact ⟨fun hnone => absurd hnone ha, fun _ => h.exit hx (hcodes.imp_right And.left)⟩
    · refine ⟨nofun, fun _ => ?_⟩
      obtain ⟨acts, -, hactions⟩ := hw.grows.actions
      rcases hcodes with hmute | ⟨hstores, -⟩
      · rw [show t.backend.actions = s.backend.actions ++ acts from hactions]
        exact h.orderly.append (codeless_of_mute hactions hmute)
      · exact (h.stores hstores).1
  · rw [hrun] at hlands hcodes
    rcases h.moved hlands hcodes with hin | ⟨hmute, m, frame, child, henter⟩
    · exact hin.reverts
    · exact h.enter_failed henter hmute
  · trivial

/-- **A step keeps the order.** -/
theorem Session.codeOnce_after {x : Session} (hx : x.progress.CodeOnce B) (k : Session.Kind) :
    (x.after B k).progress.CodeOnce B := by
  obtain ⟨isEof, p⟩ := x
  cases k with
  | next =>
    cases p with
    | running s =>
      have h : s.chain.InOrder B := hx
      show (micro B isEof (.running s)).CodeOnce B
      rcases Evm.runOpcode_run B isEof s with ⟨-, f, hf⟩ | ⟨op, tracer, -, hrun⟩
      · rw [micro_of_panic hf]
        trivial
      · have hop := Chain.InOrder.opcode (s := { s with tracer := tracer }) h op
        rcases ho : op.run B { s with tracer := tracer } with ⟨a, u⟩ | ⟨e, u⟩ | p
        · rw [ho] at hop
          rw [micro_of_ok (hrun.trans ho)]
          exact codeOnce_conclude hop.1 hop.2
        · rw [ho] at hop
          rw [micro_of_err (hrun.trans ho)]
          exact hop
        · rw [micro_of_panic (hrun.trans ho)]
          trivial
    | failed err s =>
      have h : s.chain.Reverts B := hx
      have hends : NeonEvm.Ends B .revert s (Evm.handleError err s) := ends_opcodeRevertImpl _ s
      have hmute : (Evm.handleError err s).Within Evm.Mute s :=
        (codesWithin_rule (B := B)).keeps_opcodeRevertImpl _ s
      show (micro B isEof (.failed err s)).CodeOnce B
      unfold micro
      dsimp only
      rcases ho : Evm.handleError err s with ⟨a, u⟩ | ⟨e, u⟩ | p
      · rw [ho] at hends
        rcases hends with ⟨ha, m, parent, hleave⟩ | ⟨ha, m, hx⟩
        · exact codeOnce_conclude (fun _ => h.leave hleave) fun hne => absurd ha hne
        · exact codeOnce_conclude (fun hnone => absurd hnone ha) fun _ => h.exit hx
      · rw [ho] at hends hmute
        show deployments.Orderly B.Vacant u.backend.actions
        rcases hends with hw | ⟨m, parent, hleave⟩
        · obtain ⟨acts, -, hactions⟩ := hw.grows.actions
          rw [show u.backend.actions = s.backend.actions ++ acts from hactions]
          exact h.orderly.append (codeless_of_mute hactions hmute)
        · exact (h.leave hleave).orderly
      · trivial
    | _ => exact hx
  | resume =>
    cases p with
    | running s =>
      have h : s.chain.InOrder B := hx
      have hrun := enterVM_run s
      show (NeonEvm.enter s).CodeOnce B
      unfold NeonEvm.enter
      rcases henter : enterVM s with ⟨_ | status, t⟩ | ⟨e, t⟩ | p
      · rw [henter] at hrun
        obtain ⟨hframe, hparents, hbackend⟩ := hrun
        refine h.congr ?_
        simp [Evm.chain, Evm.env, hframe, hparents, hbackend]
      · rw [henter] at hrun
        have hactions : t.backend.actions = s.backend.actions :=
          congrArg Journal.entries (Ending.takeBack_ok (e := .commit) hrun.2.2.2.2).2.1
        show deployments.Orderly B.Vacant t.backend.actions
        rw [hactions]
        exact h.orderly
      · rw [henter] at hrun
        exact hrun.elim
      · trivial
    | _ => exact hx

/-! ## The first frame -/

omit [Platform] in
/-- What the first frame has appended behind the origin's nonce. -/
theorem Chain.first_inOrder {env : CallEnv} {b b' : ExecutorState} (actions : List Action)
    (hactions : b.actions = actions) (hstack : b.stack = [1]) (hle : 1 ≤ actions.length)
    (hcodes : codedBy actions = [])
    (hkey : env.reason = .create → B.Vacant env.context.contract ∧
      actions[1]? = some (.evmIncrementNonce env.context.contract))
    (hgrows : GrowsOver B Codeless b b') : (⟨env, [], b'⟩ : Chain).InOrder B := by
  obtain ⟨acts, hbuilt, hacts⟩ := hgrows.1.actions
  have hall : b'.actions = actions ++ acts := hacts.trans (congrArg (· ++ acts) hactions)
  have hnone : deployments.redeemed (actions ++ acts) = [] :=
    List.filterMap_append.trans (List.append_eq_nil_iff.2 ⟨hcodes, Codeless.built hbuilt⟩)
  have horderly : deployments.Orderly B.Vacant (actions ++ acts) :=
    (Redeem.orderly_nil.append hnone : deployments.Orderly B.Vacant ([] ++ (actions ++ acts)))
  refine ⟨hall ▸ horderly, ?_⟩
  rw [layers_eq (hgrows.2.trans hstack)]
  refine .one ?_ (hall ▸ hnone) fun k hk => ?_
  · rw [hall, List.length_append]
    exact hle.trans (Nat.le_add_right _ _)
  · by_cases hreason : env.reason = .create
    · obtain ⟨hvacant, hcounted⟩ := hkey hreason
      obtain rfl : env.context.contract = k :=
        Option.some.inj ((if_pos hreason).symm.trans hk)
      refine ⟨hvacant, ?_⟩
      show b'.actions[1]?.bind Action.counted = _
      rw [hall, List.getElem?_append_left (List.getElem?_eq_some_iff.1 hcounted).1, hcounted]
      rfl
    · exact nomatch (if_neg hreason).symm.trans hk

omit [Platform] in
theorem onDatabase_eq_ok {α : Type} {x : Db α} {a : α} {b b' : ExecutorState} :
    onDatabase x b = .ok a b' ↔ ∃ d, x b.toDatabase = .ok a d ∧ b.setDatabase d = b' := zoom_eq_ok

omit [Platform] in
theorem codeless_transfer (source target : Address) (value : U256) :
    Moves (GrowsOver B Codeless) (onDatabase (transfer B source target value)) :=
  moves_onDatabase (moves_transfer fun _ _ => rfl)

omit [Platform] in
theorem onDatabase_pushAction (a : Action) (b : ExecutorState) :
    onDatabase (pushAction a) b = .ok () { b with actions := b.actions ++ [a] } := rfl

omit [Platform] in
theorem Machine.newCall_inOrder {trx : Transaction} {origin target : Address} {m : Machine}
    {b b' : ExecutorState} (hb : GrowsOver B (fun _ => False) (ExecutorState.new B) b)
    (h : Machine.newCall B trx origin target b = .ok m b') :
    (⟨m.frame.env, m.parents, b'⟩ : Chain).InOrder B := by
  simp only [Machine.newCall, bind_eq_ok, modify_eq_ok, pure_eq_ok] at h
  obtain ⟨_, b₁, hcount, _, _, rfl, _, b₂, htransfer, _, b₃, hcode, _, b₄, hcontainer, rfl, rfl⟩ := h
  obtain ⟨-, rfl⟩ := Outcome.ok.inj ((onDatabase_pushAction _ _).symm.trans hcount)
  have hactions : b.actions = [] := hb.1.actions_eq fun _ => id
  have hgrows := ((codeless_transfer _ _ _).returns _ _ _ htransfer).trans
    (((moves_onDatabase (moves_code _)).returns _ _ _ hcode).trans
      ((moves_lift (R := GrowsOver B Codeless) _).returns _ _ _ hcontainer))
  refine first_inOrder [.evmIncrementNonce origin] ?_ ?_ le_rfl rfl nofun hgrows
  · exact congrArg (· ++ _) hactions
  · show (b.actions ++ [_]).length :: b.stack = [1]
    rw [hactions, hb.2]
    rfl

theorem Machine.newCreate_inOrder {trx : Transaction} {origin : Address} {m : Machine}
    {b b' : ExecutorState} (hb : GrowsOver B (fun _ => False) (ExecutorState.new B) b)
    (h : Machine.newCreate B trx origin b = .ok m b') :
    (⟨m.frame.env, m.parents, b'⟩ : Chain).InOrder B := by
  simp only [Machine.newCreate, bind_eq_ok, modify_eq_ok, pure_eq_ok] at h
  obtain ⟨n, b₁, hnonce, _, _, hn, k, b₂, hsize, _, _, hk, _, b₃, hcount, _, _, rfl, _, b₄, hself, _,
    b₅, htransfer, _, b₆, hcontainer, rfl, rfl⟩ := h
  have hzero : n = 0 := by simpa using (failIf_eq_ok.1 hn).1
  have hsizeZero : k = 0 := by simpa using (failIf_eq_ok.1 hk).1
  subst hzero hsizeZero
  obtain ⟨d, hnonceRead, rfl⟩ := onDatabase_eq_ok.1 hnonce
  obtain ⟨rfl, -⟩ := nonce_read hnonceRead
  obtain ⟨-, rfl⟩ := failIf_eq_ok.1 hn
  obtain ⟨d, hsizeRead, rfl⟩ := onDatabase_eq_ok.1 hsize
  have hactions : b.actions = [] := hb.1.actions_eq fun _ => id
  have hempty : deployments.Orderly B.Vacant b.actions := hactions ▸ Redeem.orderly_nil
  obtain ⟨hvacant, hfresh⟩ := vacant_of_reads hempty hnonceRead hsizeRead
  obtain ⟨rfl, -⟩ := codeSize_read hsizeRead fun hmem => hfresh (hempty.mem_reserved hmem)
  obtain ⟨-, rfl⟩ := failIf_eq_ok.1 hk
  obtain ⟨-, rfl⟩ := Outcome.ok.inj ((onDatabase_pushAction _ _).symm.trans hcount)
  obtain ⟨-, rfl⟩ := Outcome.ok.inj ((onDatabase_pushAction _ _).symm.trans hself)
  have hgrows := ((codeless_transfer _ _ _).returns _ _ _ htransfer).trans
    ((moves_lift (R := GrowsOver B Codeless) _).returns _ _ _ hcontainer)
  refine first_inOrder [.evmIncrementNonce origin,
    .evmIncrementNonce (Address.fromCreate origin trx.nonce)] ?_ ?_ (Nat.succ_pos _) rfl
    (fun _ => ⟨hvacant, rfl⟩) hgrows
  · exact congrArg (· ++ _ ++ _) hactions
  · show (b.actions ++ [_]).length :: b.stack = [1]
    rw [hactions, hb.2]
    rfl

/-- **A run begins in order.** -/
theorem Session.Starts.codeOnce {trx : Transaction} {origin : Address} {x : Session}
    (h : Session.Starts B trx origin x) : x.progress.CodeOnce B := by
  obtain ⟨m, b, tracer, hnew, rfl⟩ := h
  have hin : (⟨m.frame.env, m.parents, b⟩ : Chain).InOrder B := by
    obtain ⟨_, b₁, hcheck, hnew⟩ := bind_eq_ok.1 hnew
    have hgrows : GrowsOver B (fun _ => False) (ExecutorState.new B) b₁ :=
      (moves_onDatabase (Machine.moves_checkTransaction trx origin)).returns _ _ _ hcheck
    rcases htarget : trx.target with _ | target
    · rw [htarget] at hnew
      exact Machine.newCreate_inOrder hgrows hnew
    · rw [htarget] at hnew
      exact Machine.newCall_inOrder hgrows hnew
  exact Session.codeOnce_after
    (x := ⟨true, .running ⟨m.frame, m.parents, b, tracer⟩⟩) hin .resume

/-- **So does a run.** -/
theorem Session.codeOnce_run {G : Session.Kind → Session → Prop} {x y : Session}
    (hx : x.progress.CodeOnce B) (h : Session.Run B G x y) : y.progress.CodeOnce B := by
  induction h with
  | refl => exact hx
  | tail _ hstep ih =>
    obtain ⟨k, -, rfl⟩ := hstep
    exact Session.codeOnce_after ih k

/-- **A creation at an address with code fails.** -/
theorem Session.creation_fails {x : Session} (hx : x.progress.CodeOnce B)
    (hs : x.progress = .running s) {opcode : UInt8} (hfetch : Evm.fetch s = .ok opcode t)
    {args : EvmM Evm.CreateArgs} (hop : Evm.popCreation B (tableOf x.isEof opcode) = some args)
    {c : Evm.CreateArgs} (hargs : args t = .ok c u)
    (hmem : c.address ∈ codedBy s.backend.actions) :
    (∃ e v, (x.after B .next).progress = .failed e v) ∨
      ∃ p, (tableOf x.isEof opcode).run B t = .panic p ∧
        (x.after B .next).progress = .panicked p := by
  obtain ⟨isEof, p⟩ := x
  obtain rfl : p = .running s := hs
  have hin : s.chain.InOrder B := hx
  have hbackend : t.backend = s.backend := by
    obtain ⟨_, _, _, rfl⟩ := Evm.fetch_eq_ok hfetch
    rfl
  have horderly : deployments.Orderly B.Vacant t.backend.actions := by
    rw [hbackend]
    exact hin.orderly
  have hrun : Evm.runOpcode B isEof s = (tableOf isEof opcode).run B t := by
    rw [Evm.runOpcode, bind_run, hfetch]
    rfl
  show (∃ e v, micro B isEof (.running s) = .failed e v) ∨
    ∃ p, (tableOf isEof opcode).run B t = .panic p ∧ micro B isEof (.running s) = .panicked p
  rcases ho : (tableOf isEof opcode).run B t with ⟨a, v⟩ | ⟨e, v⟩ | p
  · obtain ⟨c', u', hargs', -, -, hfresh⟩ := opcode_create_ok hop horderly ho
    obtain ⟨rfl, -⟩ := Outcome.ok.inj (hargs.symm.trans hargs')
    rw [← hbackend] at hmem
    refine absurd ?_ hfresh
    rw [countedBy, Redeem.reserved_append]
    exact List.mem_append_left _ (horderly.mem_reserved hmem)
  · exact .inl ⟨e, v, micro_of_err (hrun.trans ho)⟩
  · exact .inr ⟨p, rfl, micro_of_panic (hrun.trans ho)⟩

end

/-! ## Which code is read -/

/-- **The first code of an address is the last.** -/
theorem Overlay.code_eq_last {actions : List Action} (h : (codedBy actions).Nodup) (a : Address) :
    Overlay.code a actions = actions.reverse.findSome? (Overlay.codeOf a) := by
  induction actions with
  | nil => rfl
  | cons x xs ih =>
    rw [List.reverse_cons, List.findSome?_append, Overlay.code, List.findSome?_cons]
    rcases hx : Overlay.codeOf a x with _ | code
    · have hxs : (codedBy xs).Nodup :=
        h.sublist ((List.sublist_cons_self x xs).filterMap _)
      rw [← ih hxs, List.findSome?_singleton, hx, Option.or_none]
      rfl
    · have hcoded := Overlay.codeOf_eq_some hx
      have hnot : a ∉ codedBy xs := by
        have hcons : codedBy (x :: xs) = a :: codedBy xs := List.filterMap_cons_some hcoded
        rw [hcons, List.nodup_cons] at h
        exact h.1
      have hnone := Overlay.code_eq_none hnot
      rw [Overlay.code, List.findSome?_eq_none_iff] at hnone
      rw [List.findSome?_eq_none_iff.2 fun y hy => hnone y (List.mem_reverse.1 hy),
        List.findSome?_singleton, hx]
      rfl

end NeonEvm
