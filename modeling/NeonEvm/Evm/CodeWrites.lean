import NeonEvm.Evm.Appends
import NeonEvm.Lib.Redeem

/-!
# Evm/CodeWrites — what an opcode does to the codes of the journal

    RETURN of a constructor    one more code, its own, and the frame is gone
    every other opcode         no code but those that were there

Counting a nonce reserves an address; giving it code redeems it.
-/

namespace NeonEvm

open Exec ExecutorState

/-- The address whose nonce an action counts. -/
def Action.counted : Action → Option Address
  | evmIncrementNonce address => some address
  | _ => none

/-- A contract is counted before it gets its code. -/
def deployments : Redeem Action Address := ⟨Action.counted, Action.coded⟩

/-- The addresses that a journal gives code to. -/
abbrev codedBy (actions : List Action) : List Address := deployments.redeemed actions

/-- The addresses whose nonces a journal counts. -/
abbrev countedBy (actions : List Action) : List Address := deployments.reserved actions

/-- No code is given. -/
def Codeless (actions : List Action) : Prop := codedBy actions = []

theorem Codeless.built {actions : List Action} (h : Journal.Built Codeless actions) :
    Codeless actions := by
  induction h with
  | nil => rfl
  | append _ h ih => exact List.filterMap_append.trans (List.append_eq_nil_iff.2 ⟨ih, h⟩)

/-- The codes of the second are the first of the first's. -/
def CodesWithin (d d' : Database) : Prop := codedBy d'.actions <+: codedBy d.actions

instance : Std.Refl CodesWithin := ⟨fun _ => List.prefix_rfl⟩

instance : IsTrans Database CodesWithin := ⟨fun _ _ _ h h' => List.IsPrefix.trans h' h⟩

variable {B : AccountStorage} {s : Evm}

/-- Appending no code keeps the codes. -/
theorem CodesWithin.of_grows {d d' : Database} (h : Grows B Codeless d d') : CodesWithin d d' := by
  obtain ⟨acts, hbuilt, hacts⟩ := h.actions
  have hnone : deployments.redeemed acts = [] := Codeless.built hbuilt
  rw [CodesWithin, hacts, codedBy, Redeem.redeemed_append, hnone, List.append_nil]

/-- **The rule of the codes**. -/
theorem codesWithin_rule : Rule B CodesWithin Codeless where
  append := .of_grows
  take _ _ := (List.take_prefix _ _).filterMap _
  plain hcode _ := List.filterMap_cons_none hcode

/-- **An extension gives no code**, whoever calls it. -/
theorem codesWithin_extension [Platform] {context : Context} {address : Address} {input : Bytes}
    {isStatic : Bool} {x : Db Bytes}
    (hx : callPrecompileExtension B context address input isStatic = some x) :
    Moves CodesWithin x :=
  (moves_callPrecompileExtension hx).mono fun _ _ h => .of_grows <| h.mono fun acts hacts => by
    obtain ⟨-, hblock⟩ := hacts
    cases hblock <;> rfl

/-- There are no codes in `t` but those of `s`. -/
abbrev Evm.Mute (s t : Evm) : Prop := s.Keeps CodesWithin t

/-- **An opcode gives one code at most**, and that at the end of a constructor. -/
theorem codesOnce_opcode [Platform] (op : Opcode) (s : Evm) :
    Appends Evm.Mute s (op.run B s) := by
  refine (codesWithin_rule.appends_opcode op).imp fun t h => ?_
  obtain ⟨caller, -, h | ⟨d, context, address, input, isStatic, x, hd, -, -, hx, hleaves⟩⟩ := h
  · exact h
  · exact trans_of CodesWithin hd ((codesWithin_extension hx).leaves hleaves)

end NeonEvm
