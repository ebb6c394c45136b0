import NeonEvm.Evm.Buffer

/-!
# Types/Transaction — the two kinds of transaction and the fields a run reads
-/

namespace NeonEvm

/-- `LegacyTx`. -/
structure LegacyTx where
  nonce : ℕ
  gasPrice : U256
  gasLimit : U256
  target : Option Address
  value : U256
  callData : Buffer
  v : U256
  r : U256
  s : U256
  chainId : Option U256
  recoveryId : UInt8
  deriving DecidableEq

/-- `AccessListTx`. -/
structure AccessListTx where
  nonce : ℕ
  gasPrice : U256
  gasLimit : U256
  target : Option Address
  value : U256
  callData : Buffer
  r : U256
  s : U256
  chainId : U256
  recoveryId : UInt8
  accessList : List (Address × List U256)
  deriving DecidableEq

/-- `TransactionPayload`. -/
inductive TransactionPayload where
  | legacy (tx : LegacyTx)
  | accessList (tx : AccessListTx)
  deriving DecidableEq

/-- `Transaction`. -/
structure Transaction where
  transaction : TransactionPayload
  byteLen : ℕ
  hash : U256
  signedHash : U256
  deriving DecidableEq

namespace Transaction

/-- A first transaction of its sender, for a free call of a contract without data. -/
def callOf (target : Address) : Transaction where
  transaction := .legacy ⟨0, 0, 0, some target, 0, .empty, 0, 0, 0, none, 0⟩
  byteLen := 0
  hash := 0
  signedHash := 0

def nonce (t : Transaction) : ℕ :=
  match t.transaction with
  | .legacy tx => tx.nonce
  | .accessList tx => tx.nonce

def gasPrice (t : Transaction) : U256 :=
  match t.transaction with
  | .legacy tx => tx.gasPrice
  | .accessList tx => tx.gasPrice

def gasLimit (t : Transaction) : U256 :=
  match t.transaction with
  | .legacy tx => tx.gasLimit
  | .accessList tx => tx.gasLimit

def target (t : Transaction) : Option Address :=
  match t.transaction with
  | .legacy tx => tx.target
  | .accessList tx => tx.target

def value (t : Transaction) : U256 :=
  match t.transaction with
  | .legacy tx => tx.value
  | .accessList tx => tx.value

def callData (t : Transaction) : Buffer :=
  match t.transaction with
  | .legacy tx => tx.callData
  | .accessList tx => tx.callData

def chainId (t : Transaction) : Option U256 :=
  match t.transaction with
  | .legacy tx => tx.chainId
  | .accessList tx => some tx.chainId

end Transaction

end NeonEvm
