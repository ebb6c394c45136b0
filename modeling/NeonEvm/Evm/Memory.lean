import NeonEvm.Error
import NeonEvm.Evm.Buffer

/-!
# Evm/Memory — the growing byte array of a frame

`realloc` raises `size` before it checks the limit, so that a refused access leaves `size` above
`capacity`.
-/

namespace NeonEvm

def MAX_MEMORY_SIZE : ℕ := 64 * 1024

def MEMORY_CAPACITY : ℕ := 1024

/-- `evm::memory::Memory`: `data` points at `capacity` bytes, of which `size` are in use. -/
structure Memory where
  data : Bytes
  capacity : ℕ
  size : ℕ
  deriving DecidableEq

/-- `checked_next_multiple_of_32`. -/
def checkedNextMultipleOf32 (n : ℕ) : Option ℕ :=
  (checkedAdd n 31).map fun m => m / 32 * 32

/-- `usize::checked_next_power_of_two`. -/
def checkedNextPowerOfTwo (n : ℕ) : Option ℕ :=
  if 2 ^ Nat.clog 2 n < USIZE then some (2 ^ Nat.clog 2 n) else none

namespace Memory

/-- `Memory::with_capacity`. -/
def withCapacity (capacity : ℕ) : Memory := ⟨List.replicate capacity 0, capacity, 0⟩

/-- `Memory::new`. -/
def new : Memory := withCapacity MEMORY_CAPACITY

/-- `Memory::from_buffer`. -/
def fromBuffer (v : Bytes) : Memory :=
  let capacity := max (2 ^ Nat.clog 2 v.length) MEMORY_CAPACITY
  ⟨v ++ List.replicate (capacity - v.length) 0, capacity, v.length⟩

/-- `Memory::realloc`: the memory it leaves, and whether the access was refused. -/
def realloc (m : Memory) (offset length : ℕ) : Memory × Except Error Unit :=
  let refused := .error (.memoryAccessOutOfLimits offset length)
  match (checkedAdd offset length).bind checkedNextMultipleOf32 with
  | none => (m, refused)
  | some newSize =>
    let m' := if m.size < newSize then { m with size := newSize } else m
    if newSize ≤ m.capacity then (m', .ok ())
    else
      match checkedNextPowerOfTwo newSize with
      | none => (m', refused)
      | some newCapacity =>
        if MAX_MEMORY_SIZE < newCapacity then (m', refused)
        else
          ({ m' with
              data := m.data ++ List.replicate (newCapacity - m.capacity) 0
              capacity := newCapacity }, .ok ())

/-- The bytes at `offset .. offset + length`. -/
def slice (m : Memory) (offset length : ℕ) : Bytes := (m.data.drop offset).take length

/-- Overwrite the bytes at `offset ..`. -/
def store (m : Memory) (offset : ℕ) (bytes : Bytes) : Memory :=
  { m with data := m.data.take offset ++ bytes ++ m.data.drop (offset + bytes.length) }

/-- `Memory::read`. -/
def read (m : Memory) (offset length : ℕ) : Memory × Except Error Bytes :=
  if length = 0 then (m, .ok [])
  else
    let (m', r) := m.realloc offset length
    (m', r.map fun _ => m'.slice offset length)

/-- `Memory::read_32`. -/
def read32 (m : Memory) (offset : ℕ) : Memory × Except Error U256 :=
  let (m', r) := m.realloc offset 32
  (m', r.map fun _ => U256.ofBytes (m'.slice offset 32))

/-- What every write does once it knows its bytes: make room, then store them. -/
def storeAt (m : Memory) (offset : ℕ) (bytes : Bytes) : Memory × Except Error Unit :=
  let (m', r) := m.realloc offset bytes.length
  (match r with | .ok _ => m'.store offset bytes | .error _ => m', r)

/-- `Memory::write_32`. -/
def write32 (m : Memory) (offset : ℕ) (value : U256) : Memory × Except Error Unit :=
  m.storeAt offset value.bytes

/-- `Memory::write_byte`. -/
def writeByte (m : Memory) (offset : ℕ) (value : UInt8) : Memory × Except Error Unit :=
  m.storeAt offset [value]

/-- The bytes `write_buffer` stores: the source from `source_offset`, padded with zeros. -/
def sourceBytes (length : ℕ) (source : Bytes) (sourceOffset : ℕ) : Bytes :=
  if source.length ≤ sourceOffset then List.replicate length 0
  else if source.length < sourceOffset + length then
    source.drop sourceOffset ++ List.replicate (length - (source.length - sourceOffset)) 0
  else (source.drop sourceOffset).take length

/-- `Memory::write_buffer`. -/
def writeBuffer (m : Memory) (offset length : ℕ) (source : Bytes) (sourceOffset : ℕ) :
    Memory × Except Error Unit :=
  if length = 0 then (m, .ok ())
  else m.storeAt offset (sourceBytes length source sourceOffset)

/-- `Memory::write_range`. -/
def writeRange (m : Memory) (range : Range) (source : Bytes) : Memory × Except Error Unit :=
  m.writeBuffer range.start range.len source 0

/-- `Memory::read_buffer`. -/
def readBuffer (m : Memory) (offset length : ℕ) : Memory × Except Error Buffer :=
  let (m', r) := m.read offset length
  (m', r.map Buffer.fromSlice)

/-- `Serialize for Memory`: the bytes in use, a slice of those that are there. -/
def serialize (m : Memory) : Option Bytes :=
  if m.size ≤ m.capacity then some (m.data.take m.size) else none

/-- `Deserialize for Memory`: an error unless the bytes are whole words. -/
def deserialize (v : Bytes) : Option Memory :=
  if v.length % 32 ≠ 0 then none else some (fromBuffer v)

end Memory

end NeonEvm
