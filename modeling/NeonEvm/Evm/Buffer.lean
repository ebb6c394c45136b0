import NeonEvm.Types.Word

/-!
# Evm/Buffer — byte buffers, owned or standing for a range of an account

A buffer over an account keeps only its key and range when it is saved; loading gives an
*uninitialised* buffer, which `Machine::deserialize_from` points at the account again.
-/

namespace NeonEvm

/-- `Range<usize>`. -/
structure Range where
  start : ℕ
  stop : ℕ
  deriving DecidableEq, Repr

/-- `Range::len`: zero when the range runs backwards. -/
def Range.len (r : Range) : ℕ := r.stop - r.start

/-- `evm::Buffer`.  An account buffer carries the bytes its pointer reads. -/
inductive Buffer where
  | empty
  | owned (bytes : Bytes)
  | account (key : Pubkey) (range : Range) (bytes : Bytes)
  | accountUninit (key : Pubkey) (range : Range)
  deriving DecidableEq

namespace Buffer

/-- `Deref for Buffer`. -/
def toList : Buffer → Bytes
  | empty => []
  | owned bytes => bytes
  | account _ _ bytes => bytes
  | accountUninit _ _ => []

/-- `Buffer::from_slice`. -/
def fromSlice (v : Bytes) : Buffer := if v = [] then empty else owned v

def len (b : Buffer) : ℕ := b.toList.length

/-- `Buffer::is_initialized`. -/
def isInitialized : Buffer → Bool
  | accountUninit _ _ => false
  | _ => true

/-- `Buffer::uninit_data`. -/
def uninitData : Buffer → Option (Pubkey × Range)
  | accountUninit key range => some (key, range)
  | _ => none

/-- `Buffer::get_or_default`. -/
def getOrDefault (b : Buffer) (index : ℕ) : UInt8 := b.toList.getD index 0

/-- `Buffer::get_u16_or_default`. -/
def getU16OrDefault (b : Buffer) (index : ℕ) : ℕ :=
  if b.len < index + 2 then 0 else ofBeBytes ((b.toList.drop index).take 2)

/-- `Buffer::get_i16_or_default`. -/
def getI16OrDefault (b : Buffer) (index : ℕ) : ℤ :=
  let v := b.getU16OrDefault index
  if v < 2 ^ 15 then (v : ℤ) else (v : ℤ) - 2 ^ 16

/-- A buffer that serialises and reads back as it is: initialised, and owned only if nonempty. -/
def Loaded : Buffer → Prop
  | owned bytes => bytes ≠ []
  | accountUninit _ _ => False
  | _ => True

@[simp] theorem toList_fromSlice (v : Bytes) : (fromSlice v).toList = v := by
  unfold fromSlice
  split
  · next h => exact h.symm
  · rfl

theorem Loaded.isInitialized {b : Buffer} (h : b.Loaded) : b.isInitialized = true := by
  cases b <;> first | rfl | exact h.elim

theorem getOrDefault_of_len_le {b : Buffer} {i : ℕ} (h : b.len ≤ i) : b.getOrDefault i = 0 := by
  simp [getOrDefault, List.getElem?_eq_none h]

end Buffer

end NeonEvm
