import NeonEvm.AccountStorage.Locking
import NeonEvm.Evm.Asked
import NeonEvm.Instruction.HolderWrite
import NeonEvm.Instruction.Step

/-!
# Instruction/Saved — an execution is saved and comes back

    list of accounts · executor · machine      behind the header of a state

The list stays where it is when the execution behind it is saved again, and a journal that asks
other programs only does so when it comes back.
-/

namespace NeonEvm

open Exec Packable Chunks
open BlockedAccountMeta (format)

variable [Platform] [Runtime]

/-- The instructions that the program builds are of other programs. -/
structure BuildersApart : Prop where
  request : ∀ {B : AccountStorage} {caller : Address} {before after : List Action} {a : Action},
    ExecutorState.Request B caller (fun _ _ _ => True) before after a → a.IsForeign
  transfer : ∀ {source target authority : Pubkey} {amount : ℕ} {i : Instruction},
    Platform.splTransfer source target authority amount = .ok i → i.programId ≠ programId
  initializeAccount : ∀ {account mint owner : Pubkey} {i : Instruction},
    Platform.splInitializeAccount3 Platform.splTokenId account mint owner = .ok i →
      i.programId ≠ programId

/-- Every action is foreign. -/
def AsksOthers (actions : List Action) : Prop := ∀ a ∈ actions, a.IsForeign

/-! ## Running the machine -/

variable {B : AccountStorage} {backend backend' : ExecutorState} {machine machine' : Machine}

omit [Platform] [Runtime] in
theorem runExecutor_eq_ok {α : Type} {x : Exec Fault Error ExecutorState α} {r : α × ExecutorState}
    {v : Unit} :
    runExecutor backend x () = .ok r v ↔ x backend = .ok r.1 r.2 := by
  obtain ⟨a, b⟩ := r
  rw [runExecutor]
  rcases x backend with ⟨a', b'⟩ | ⟨e, b'⟩ | p <;> simp

omit [Platform] in
/-- An action that is no instruction is foreign. -/
theorem Action.isForeign_of {a : Action} (h : a.isInstruction = false) : a.IsForeign := by
  cases a with
  | externalInstruction => cases h
  | _ => trivial

/-- **A new machine** asks nothing. -/
theorem asksOthers_new {trx : Transaction} {origin : Address}
    (h : Machine.new B trx origin (.new B) = .ok machine backend) : AsksOthers backend.actions :=
  fun a ha => Action.isForeign_of ((asksNothing_new (B := B) trx origin).returns _ _ _ h
    (fun _ hx => (List.not_mem_nil hx).elim) a ha)

/-- **A run** asks other programs only. -/
theorem asksOthers_run (hbuilders : BuildersApart) {x y : Session}
    (hrun : Session.Run B (fun _ _ => True) x y)
    (hx : ∀ s, x.progress.state = some s → AsksOthers s.backend.actions) {t : Evm}
    (ht : y.progress.state = some t) : AsksOthers t.backend.actions := by
  intro a ha
  rcases hi : a.isInstruction
  · exact Action.isForeign_of hi
  · obtain ⟨before, after, ha⟩ := List.append_of_mem ha
    obtain ⟨-, hasked⟩ :=
      Session.asked_run ExecutorState.tells_nothing hrun (fun _ _ => trivial) ht
    rcases hasked ⟨after, ha⟩ hi with
      ⟨s, hs, rest, hstood⟩ | ⟨_, _, _, _, _, _, -, -, -, -, -, -, -, hrequest⟩
    · exact hx s hs a (hstood ▸ List.mem_append_right _ List.mem_cons_self)
    · exact hbuilders.request hrequest

/-- **A machine that is executed** asks other programs only. -/
theorem asksOthers_executeMachine (hbuilders : BuildersApart) {fuel stepCount : ℕ}
    {r : ExitStatus × ℕ} {v : Unit}
    (h : executeMachine B fuel stepCount backend machine () = .ok (r, backend', machine') v)
    (hactions : AsksOthers backend.actions) : AsksOthers backend'.actions := by
  rw [executeMachine] at h
  rcases hex : execute B fuel stepCount ⟨machine.frame, machine.parents, backend, none⟩ with
    _ | ⟨p, n⟩
  · rw [hex] at h
    cases h
  · rw [hex] at h
    obtain ⟨y, hrun, hend⟩ := execute_run hex
    have hall {t : Evm} (ht : y.progress.state = some t) : AsksOthers t.backend.actions := by
      refine asksOthers_run hbuilders
        (Relation.ReflTransGen.mono (fun _ _ ⟨k, _, hk⟩ => ⟨k, trivial, hk⟩) _ _ hrun)
        (fun s hs => ?_) ht
      obtain ⟨t, ht, heq⟩ := Session.database_resume (B := B)
        (x := ⟨true, .running ⟨machine.frame, machine.parents, backend, none⟩⟩) hs
      obtain rfl := Option.some.inj ht
      rw [congrArg Database.actions heq]
      exact hactions
    cases p with
    | exited status s =>
      obtain ⟨heq, -⟩ := pure_eq_ok.1 h
      obtain ⟨-, rfl, -⟩ := Prod.mk.inj heq
      rcases hend with hend | ⟨t, ht, hend⟩
      · rcases hy : y.progress with t | ⟨e, t⟩ | ⟨status', t⟩ | ⟨e, t⟩ | p
        · exact nomatch hend.trans (congrArg Progress.traceEnd hy)
        · exact nomatch hend.trans (congrArg Progress.traceEnd hy)
        · obtain ⟨-, rfl⟩ := Progress.exited.inj (hend.trans (congrArg Progress.traceEnd hy))
          exact hall (t := t) (congrArg Progress.state hy)
        · exact nomatch hend.trans (congrArg Progress.traceEnd hy)
        · exact nomatch hend.trans (congrArg Progress.traceEnd hy)
      · obtain ⟨-, rfl⟩ := Progress.exited.inj hend
        exact hall (t := t) (congrArg Progress.state ht)
    | _ => cases h

/-! ## Saving it -/

namespace State

/-- `read_blocked_accounts`, where the list is there. -/
def listed (d : State) (rest : Bytes) : BlockedAccounts := format.read (rest.take d.evmDataOffset)

end State

variable [Bincode]

/-- A journal that was saved is the one that is loaded. -/
class Bincode.Lawful : Prop where
  actions {b c : ExecutorState} (h : Bincode.deserializeState (Bincode.serializeState b) = .ok c) :
    c.actions = b.actions

/-- What is saved behind a state asks other programs only. -/
def State.SavesForeign (d : State) (rest : Bytes) : Prop :=
  ∀ {bytes b}, d.savedEvm rest = some bytes → Bincode.deserializeState bytes.1 = .ok b →
    AsksOthers b.actions

variable {L L' : Ledger} {state state' : Handle State} {d : State} {rest : Bytes}

omit [Platform] [Runtime] in
/-- **The execution is saved** behind the list. -/
theorem serializeEvmState_ok (h : serializeEvmState state backend machine L = .ok state' L') :
    state'.key = state.key ∧ L' = L.setStateRest state.key state'.rest ∧
      state'.data = { state.data with
        evmStateLen := (Bincode.serializeState backend).length
        evmMachineLen := (Bincode.serializeMachine machine).length } ∧
      state'.data.listed state'.rest = state.data.listed state.rest ∧
      state'.data.savedEvm state'.rest =
        some (Bincode.serializeState backend, Bincode.serializeMachine machine) := by
  simp only [serializeEvmState, bind_eq_ok, assertThat_eq_ok, failIf_eq_ok, modify_eq_ok,
    pure_eq_ok] at h
  obtain ⟨_, _, ⟨hoffset, rfl⟩, _, _, ⟨hstate, rfl⟩, _, _, ⟨hmachine, rfl⟩, _, _, rfl, rfl, rfl⟩ := h
  have hoffset : state.data.evmDataOffset ≤ state.rest.length := of_decide_eq_true hoffset
  have hfits : state.data.evmDataOffset +
      (Bincode.serializeState backend ++ Bincode.serializeMachine machine).length ≤
        state.rest.length := by
    rw [List.length_append]
    simp only [decide_eq_false_iff_not] at hstate hmachine
    omega
  generalize hsaved : Bincode.serializeState backend ++ Bincode.serializeMachine machine = saved
    at hfits ⊢
  have hback : ((overwrite state.rest state.data.evmDataOffset saved).drop
      state.data.evmDataOffset).take saved.length = saved := take_drop_overwrite_self hoffset
  refine ⟨rfl, rfl, rfl, congrArg format.read ?_, ?_⟩
  · show ((overwrite state.rest state.data.evmDataOffset saved).drop 0).take
      state.data.evmDataOffset = (state.rest.drop 0).take state.data.evmDataOffset
    exact take_drop_overwrite hfits (.inl (Nat.zero_add _).le)
  · subst hsaved
    rw [State.savedEvm_eq]
    rw [List.length_append] at hback hfits
    have hlen : state.data.evmDataOffset + ((Bincode.serializeState backend).length +
        (Bincode.serializeMachine machine).length) ≤
          (overwrite state.rest state.data.evmDataOffset
            (Bincode.serializeState backend ++ Bincode.serializeMachine machine)).length := by
      rw [length_overwrite (by rw [List.length_append]; exact hfits)]
      exact hfits
    refine (if_pos hlen).trans (congrArg some (Prod.ext ?_ ?_))
    · exact (congrArg (List.take _) hback).trans (List.take_left ..)
    · exact (congrArg (List.drop _) hback).trans (List.drop_left ..)

omit [Platform] [Runtime] in
/-- **What is loaded** is what was saved. -/
theorem deserializeEvmState_ok {v : Unit}
    (h : deserializeEvmState B d rest () = .ok (backend, machine) v) :
    ∃ bytes, d.savedEvm rest = some bytes ∧ Bincode.deserializeState bytes.1 = .ok backend := by
  simp only [deserializeEvmState, bind_eq_ok, assertThat_eq_ok, decide_eq_true_eq, pure_eq_ok] at h
  obtain ⟨_, _, ⟨hoffset, -⟩, _, _, ⟨hstate, -⟩, b, _, hb, _, _, ⟨hmachine, -⟩, m, _, -, heq, -⟩ := h
  obtain ⟨rfl, rfl⟩ := Prod.mk.inj heq
  rw [List.length_drop] at hmachine
  refine ⟨_, (State.savedEvm_eq d rest).trans (if_pos (by omega)), ?_⟩
  rw [List.take_take, Nat.min_eq_left (Nat.le_add_right ..)]
  rcases hstored : Bincode.deserializeState ((rest.drop d.evmDataOffset).take d.evmStateLen) with
    text | c
  · rw [hstored] at hb
    cases hb
  · rw [hstored] at hb
    obtain ⟨rfl, -⟩ := pure_eq_ok.1 hb
    rfl

end NeonEvm
