import NeonEvm.Error
import NeonEvm.Lib.Chunks

/-!
# Account/Layout — what the program keeps in its accounts

    tag · header · the rest, as bytes

An account of the program is a tag, a header of a fixed size and a rest.  `Content` is such an
account with its header unpacked, as the handle `AccountData` holds it; `raw` is everything else,
the data of other programs and data that is blank.  A header is written through at once, where the
handle keeps it until it is dropped.
-/

namespace NeonEvm

/-- The low `len` bytes of a number, little-endian. -/
def toLeBytes (len n : ℕ) : Bytes := (toBeBytes len n).reverse

/-- The number a little-endian byte string spells. -/
def ofLeBytes (bs : Bytes) : ℕ := ofBeBytes bs.reverse

/-! ## Headers -/

/-- `ether_account::Data`. -/
structure EthereumAccount where
  address : Address
  bumpSeed : UInt8
  trxCount : ℕ
  balance : U256
  generation : ℕ
  codeSize : ℕ
  rwBlocked : Bool
  deriving DecidableEq

/-- `ether_account::Data { address, bump_seed, ..Default::default() }`. -/
def EthereumAccount.new (address : Address) (bumpSeed : UInt8) : EthereumAccount :=
  ⟨address, bumpSeed, 0, 0, 0, 0, false⟩

/-- `ether_storage::Data`. -/
structure EthereumStorage where
  address : Address
  generation : ℕ
  index : U256
  deriving DecidableEq

/-- `holder::Data`. -/
structure Holder where
  owner : Pubkey
  transactionHash : U256
  transactionLen : ℕ
  deriving DecidableEq

/-- `state::Data`. -/
structure State where
  owner : Pubkey
  transactionHash : U256
  caller : Address
  gasLimit : U256
  gasPrice : U256
  gasUsed : U256
  operator : Pubkey
  slot : ℕ
  accountsLen : ℕ
  evmStateLen : ℕ
  evmMachineLen : ℕ
  deriving DecidableEq

/-- `state::FinalizedData`. -/
structure FinalizedState where
  owner : Pubkey
  transactionHash : U256
  deriving DecidableEq

/-- The data of an account. -/
inductive Content where
  | raw (data : Bytes)
  | ethereum (data : EthereumAccount) (rest : Bytes)
  | storage (data : EthereumStorage) (rest : Bytes)
  | holder (data : Holder) (rest : Bytes)
  | state (data : State) (rest : Bytes)
  | finalized (data : FinalizedState) (rest : Bytes)
  deriving DecidableEq

/-! ## Packing -/

/-- `Packable`, for `τ` with the tag in front: `SIZE` is `AccountData::SIZE`. -/
class Packable (τ : Type) where
  TAG : UInt8
  SIZE : ℕ
  pack : τ → Bytes
  content : τ → Bytes → Content
  /-- Header and rest of data under this tag. -/
  split : Content → Option (τ × Bytes)

/-- `TAG_EMPTY`. -/
def TAG_EMPTY : UInt8 := 0

open Packable

instance : Packable EthereumAccount where
  TAG := 12
  SIZE := 1 + (20 + 1 + 8 + 32 + 4 + 4 + 1)
  pack d :=
    d.address.bytes ++ [d.bumpSeed] ++ toLeBytes 8 d.trxCount ++ toLeBytes 32 d.balance.toNat
      ++ toLeBytes 4 d.generation ++ toLeBytes 4 d.codeSize ++ [if d.rwBlocked then 1 else 0]
  content := .ethereum
  split
    | .ethereum d rest => some (d, rest)
    | _ => none

instance : Packable EthereumStorage where
  TAG := 42
  SIZE := 1 + (20 + 4 + 32)
  pack d := d.address.bytes ++ toLeBytes 4 d.generation ++ toLeBytes 32 d.index.toNat
  content := .storage
  split
    | .storage d rest => some (d, rest)
    | _ => none

instance : Packable Holder where
  TAG := 51
  SIZE := 1 + (32 + 32 + 8)
  pack d := d.owner.bytes ++ d.transactionHash.bytes ++ toLeBytes 8 d.transactionLen
  content := .holder
  split
    | .holder d rest => some (d, rest)
    | _ => none

instance : Packable State where
  TAG := 22
  SIZE := 1 + (32 + 32 + 20 + 32 + 32 + 32 + 32 + 8 + 8 + 8 + 8)
  pack d :=
    d.owner.bytes ++ d.transactionHash.bytes ++ d.caller.bytes ++ toLeBytes 32 d.gasLimit.toNat
      ++ toLeBytes 32 d.gasPrice.toNat ++ toLeBytes 32 d.gasUsed.toNat ++ d.operator.bytes
      ++ toLeBytes 8 d.slot ++ toLeBytes 8 d.accountsLen ++ toLeBytes 8 d.evmStateLen
      ++ toLeBytes 8 d.evmMachineLen
  content := .state
  split
    | .state d rest => some (d, rest)
    | _ => none

instance : Packable FinalizedState where
  TAG := 31
  SIZE := 1 + (32 + 32)
  pack d := d.owner.bytes ++ d.transactionHash.bytes
  content := .finalized
  split
    | .finalized d rest => some (d, rest)
    | _ => none

namespace Content

/-- The bytes of a header behind its tag, and of what follows it. -/
def spell {τ : Type} [Packable τ] (d : τ) (rest : Bytes) : Bytes := TAG τ :: pack d ++ rest

/-- `data`. -/
def bytes : Content → Bytes
  | raw data => data
  | ethereum d rest => spell d rest
  | storage d rest => spell d rest
  | holder d rest => spell d rest
  | state d rest => spell d rest
  | finalized d rest => spell d rest

/-- `data_len`. -/
def len : Content → ℕ
  | raw data => data.length
  | ethereum _ rest => SIZE EthereumAccount + rest.length
  | storage _ rest => SIZE EthereumStorage + rest.length
  | holder _ rest => SIZE Holder + rest.length
  | state _ rest => SIZE State + rest.length
  | finalized _ rest => SIZE FinalizedState + rest.length

/-- The first byte of the data. -/
def tag : Content → Option UInt8
  | raw data => data.head?
  | ethereum .. => some (TAG EthereumAccount)
  | storage .. => some (TAG EthereumStorage)
  | holder .. => some (TAG Holder)
  | state .. => some (TAG State)
  | finalized .. => some (TAG FinalizedState)

/-- Whether no byte of the data was ever written. -/
def IsBlank (c : Content) : Prop := ∃ n, c = raw (List.replicate n 0)

/-! ## The bytes of a content -/

@[simp] theorem length_toLeBytes (len n : ℕ) : (toLeBytes len n).length = len := by
  rw [toLeBytes, List.length_reverse, length_toBeBytes]

/-- **A content is as long as its bytes.** -/
theorem length_bytes (c : Content) : c.bytes.length = c.len := by
  rcases c with _ | _ | _ | _ | _ | _ <;>
    simp [bytes, len, spell, pack, SIZE, Address.bytes, Pubkey.bytes, U256.bytes] <;> omega

theorem split_ethereum_of_tag (c : Content) (h : c.tag = some TAG_EMPTY) :
    split c = (none : Option (EthereumAccount × Bytes)) := by
  cases c with
  | ethereum d rest => exact absurd h (by simp [Content.tag, TAG, TAG_EMPTY])
  | _ => rfl

theorem split_storage_of_tag (c : Content) (h : c.tag = some TAG_EMPTY) :
    split c = (none : Option (EthereumStorage × Bytes)) := by
  cases c with
  | storage d rest => exact absurd h (by simp [Content.tag, TAG, TAG_EMPTY])
  | _ => rfl

end Content

end NeonEvm
