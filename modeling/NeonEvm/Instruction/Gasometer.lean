import NeonEvm.Account.Ledger
import NeonEvm.Types.TransactionDecode

/-!
# Instruction/Gasometer — what an operator is paid for

    gas = fees of the Solana transactions · what the operator's account lost

The gas of one instruction is a `u64`, and what was paid for the instructions before it is a 256-bit
word.  Nothing of it wraps.
-/

namespace NeonEvm

open Exec

/-- `U256::saturating_add`. -/
def U256.saturatingAdd (a b : U256) : U256 := BitVec.ofNat 256 (min (a.toNat + b.toNat) (2 ^ 256 - 1))

/-- `U256::saturating_mul`. -/
def U256.saturatingMul (a b : U256) : U256 := BitVec.ofNat 256 (min (a.toNat * b.toNat) (2 ^ 256 - 1))

/-- `LAMPORTS_PER_SIGNATURE`. -/
def LAMPORTS_PER_SIGNATURE : ℕ := 5000

def WRITE_TO_HOLDER_TRX_COST : ℕ := LAMPORTS_PER_SIGNATURE
def CANCEL_TRX_COST : ℕ := LAMPORTS_PER_SIGNATURE
def LAST_ITERATION_COST : ℕ := LAMPORTS_PER_SIGNATURE

/-- `HOLDER_MSG_SIZE`. -/
def HOLDER_MSG_SIZE : ℕ := 950

/-- `Gasometer`. -/
structure Gasometer where
  paidGas : U256
  gas : ℕ
  operatorBalance : ℕ

namespace Gasometer

/-- `Gasometer::new`. -/
def new (paidGas : Option U256) (operator : Pubkey) : Program Gasometer := do
  pure ⟨paidGas.getD 0, 0, (← accountAt operator).lamports⟩

variable (g : Gasometer)

/-- `used_gas`. -/
def usedGas : U256 := BitVec.ofNat 256 g.gas

/-- `used_gas_total`. -/
def usedGasTotal : U256 := g.paidGas.saturatingAdd g.usedGas

/-- Some more gas. -/
def record (cost : ℕ) : Gasometer := { g with gas := saturatingAdd g.gas cost }

/-- `record_operator_expenses`, for an operator with these lamports. -/
def recordOperatorExpenses (lamports : ℕ) : Gasometer := g.record (g.operatorBalance - lamports)

/-- `record_solana_transaction_cost`. -/
def recordSolanaTransactionCost : Gasometer := g.record LAMPORTS_PER_SIGNATURE

/-- `record_iterative_overhead`. -/
def recordIterativeOverhead : Gasometer := (g.record LAST_ITERATION_COST).record CANCEL_TRX_COST

/-- `record_write_to_holder`. -/
def recordWriteToHolder (trx : Transaction) : Gasometer :=
  g.record (min ((trx.byteLen + (HOLDER_MSG_SIZE - 1)) / HOLDER_MSG_SIZE * WRITE_TO_HOLDER_TRX_COST)
    U64_MAX)

/-- `MIN_ACCOUNTS_TO_USE_ALT`. -/
def MIN_ACCOUNTS_TO_USE_ALT : ℕ := 30

/-- `ACCOUNTS_PER_ALT_EXTEND`. -/
def ACCOUNTS_PER_ALT_EXTEND : ℕ := 30

/-- `record_address_lookup_table`. -/
def recordAddressLookupTable (accounts : List AccountMeta) : Gasometer :=
  if accounts.length < MIN_ACCOUNTS_TO_USE_ALT then g
  else
    let extendCount :=
      (accounts.length + (ACCOUNTS_PER_ALT_EXTEND - 1)) / ACCOUNTS_PER_ALT_EXTEND
    g.record ((extendCount + 3) * LAMPORTS_PER_SIGNATURE)

end Gasometer

end NeonEvm
