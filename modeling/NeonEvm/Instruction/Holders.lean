import NeonEvm.Instruction.HolderWrite

/-!
# Instruction/Holders — holders are made and given back

    blank, at the address of the operator and a seed  ──create──▸  holder
    holder · finalized state                          ──delete──▸  blank, its lamports the operator's

Only who owns a holder deletes it, and a state is never deleted.
-/

namespace NeonEvm

open Exec Packable

/-- `MAX_SEED_LEN`. -/
def MAX_SEED_LEN : ℕ := 32

variable [Platform] [Runtime]

/-- `account_holder_create::process`. -/
def accountHolderCreate (accounts : List AccountMeta) (instruction : Bytes) : Program Unit := do
  let holder ← ofOption .index accounts[0]?
  let operator ← operatorFromAccountNotWhitelisted (← ofOption .index accounts[1]?)
  let seedLen := ofLeBytes (← lift (sliceOf instruction 0 8))
  let seed ← lift (sliceOf instruction 8 (8 + seedLen))
  failIf (String.fromUTF8? ⟨seed.toArray⟩).isNone (.ofProgram .invalidArgument)
  failIf (MAX_SEED_LEN < seed.length) (.ofProgram .invalidArgument)
  failIf (Platform.createWithSeed operator seed programId ≠ holder.pubkey)
    (.ofProgram .invalidArgument)
  initAccount holder (⟨operator, 0, 0⟩ : Holder)

/-- `account_holder_delete::process`. -/
def accountHolderDelete (accounts : List AccountMeta) : Program Unit := do
  let operator ← operatorFromAccountNotWhitelisted (← ofOption .index accounts[1]?)
  let info ← ofOption .index accounts[0]?
  let tag ← accountTag info.pubkey
  if tag = TAG Holder then do
    let holder ← fromAccount Holder info.pubkey
    failIf (holder.owner ≠ operator) (.holderInvalidOwner holder.owner operator)
    deleteAccount info.pubkey operator
  else if tag = TAG FinalizedState then do
    let finalized ← fromAccount FinalizedState info.pubkey
    failIf (finalized.owner ≠ operator) (.holderInvalidOwner finalized.owner operator)
    deleteAccount info.pubkey operator
  else fail (.accountInvalidTag info.pubkey (TAG Holder))

end NeonEvm
