import NeonEvm.Account.Ledger

/-!
# Account/Operator — who may run an instruction

An operator is an account of the system program that signed and holds no data.  What is done for
others takes one that the build lists.
-/

namespace NeonEvm

open Exec

variable [Platform]

/-- `Operator::from_account_not_whitelisted`. -/
def operatorFromAccountNotWhitelisted (info : AccountMeta) : Program Pubkey := do
  let account ← accountAt info.pubkey
  failIf (account.owner ≠ Platform.systemProgramId) (.ofProgram .invalidArgument)
  failIf (!info.isSigner) (.ofProgram .invalidArgument)
  failIf (0 < account.content.len) (.ofProgram .invalidArgument)
  pure info.pubkey

/-- The build configuration of the instructions; the list is sorted, so that a binary search finds
what is in it. -/
class Config where
  /-- `AUTHORIZED_OPERATOR_LIST`. -/
  authorizedOperatorList : List Pubkey
  /-- `incinerator::ID`. -/
  incineratorId : Pubkey

/-- The accounts `5` and `6` are trusted. -/
@[reducible] def Config.bare : Config where
  authorizedOperatorList := [5, 6]
  incineratorId := 4

/-- `Operator::from_account`. -/
def operatorFromAccount [Config] (info : AccountMeta) : Program Pubkey := do
  failIf (info.pubkey ∉ Config.authorizedOperatorList) .unauthorizedOperator
  operatorFromAccountNotWhitelisted info

variable {L L' : Ledger} {info : AccountMeta} {operator : Pubkey}

/-- Who may run an instruction is only looked at. -/
theorem operatorFromAccountNotWhitelisted_ok
    (h : operatorFromAccountNotWhitelisted info L = .ok operator L') :
    L = L' ∧ operator = info.pubkey ∧ (L info.pubkey).owner = Platform.systemProgramId := by
  simp only [operatorFromAccountNotWhitelisted, accountAt, bind_eq_ok, gets_eq_ok,
    failIf_eq_ok, pure_eq_ok] at h
  obtain ⟨_, _, ⟨rfl, rfl⟩, _, _, ⟨howner, rfl⟩, _, _, ⟨-, rfl⟩, _, _, ⟨-, rfl⟩, rfl, rfl⟩ := h
  exact ⟨rfl, rfl, by simpa using howner⟩

theorem operatorFromAccount_ok [Config] (h : operatorFromAccount info L = .ok operator L') :
    L = L' ∧ operator = info.pubkey ∧ (L info.pubkey).owner = Platform.systemProgramId := by
  obtain ⟨_, _, hlisted, h⟩ := bind_eq_ok.1 h
  obtain ⟨-, rfl⟩ := failIf_eq_ok.1 hlisted
  exact operatorFromAccountNotWhitelisted_ok h

end NeonEvm
