import Mathlib.Data.List.AList
import NeonEvm.Account.Ledger
import NeonEvm.Evm.Buffer

/-!
# Account/StoragePage — the accounts behind the slots of a contract

    slot < 64        the contract's own account, 32 bytes a slot
    slot ≥ 64        page = slot with its low byte cleared, in an account of its own:
                     a row of records  subindex · value

The seed of a page's address is made of 28 bytes of its index, the top bits of which are moved to
the end.
-/

namespace NeonEvm

open Exec Packable Chunks

/-- `STORAGE_ENTRIES_IN_CONTRACT_ACCOUNT`. -/
def STORAGE_ENTRIES_IN_CONTRACT_ACCOUNT : ℕ := 64

/-- `INTERNAL_STORAGE_SIZE`. -/
def INTERNAL_STORAGE_SIZE : ℕ := 32 * STORAGE_ENTRIES_IN_CONTRACT_ACCOUNT

/-- `HashMap`. -/
abbrev HashMap (κ ν : Type) : Type := AList fun _ : κ => ν

/-- The byte of a slot within its page. -/
def subindexOf (index : U256) : UInt8 := UInt8.ofNat index.toNat

/-- The page of a slot. -/
def pageOf (index : U256) : U256 := index &&& ~~~0xFF

/-! ## The contract's own account -/

namespace EthereumAccount

/-- `is_contract`. -/
def isContract (d : EthereumAccount) : Bool := d.codeSize ≠ 0

/-- `code_location`; the sum does not saturate, as `code_size` is a `u32`. -/
def codeLocation (d : EthereumAccount) : Range :=
  let start := SIZE EthereumAccount + INTERNAL_STORAGE_SIZE
  ⟨start, start + d.codeSize⟩

/-- `space_needed`. -/
def spaceNeeded (codeSize : ℕ) : ℕ :=
  SIZE EthereumAccount + if 0 < codeSize then codeSize + INTERNAL_STORAGE_SIZE else 0

/-- `extension_part_borrow_mut`. -/
def extensionPart (rest : Bytes) (offset len : ℕ) : Option Bytes :=
  if offset + len ≤ rest.length then some ((rest.drop offset).take len) else none

/-- `ContractData::code`. -/
def code (d : EthereumAccount) (rest : Bytes) : Option Bytes :=
  extensionPart rest INTERNAL_STORAGE_SIZE d.codeSize

/-- `ContractData::storage`. -/
def staticStorage (rest : Bytes) : Option Bytes := extensionPart rest 0 INTERNAL_STORAGE_SIZE

end EthereumAccount

/-! ## Pages -/

namespace EthereumStorage

/-- A record: the low byte of a slot, and its value. -/
def record (subindex : UInt8) (value : U256) : Bytes := subindex :: value.bytes

/-- The size of a record. -/
def RECORD : ℕ := 1 + 32

/-- `EthereumStorageAddress::make_seed`. -/
def makeSeed (index : U256) : Bytes :=
  let bytes := (index.bytes.drop 3).take 28
  let topBits (part : ℕ) : UInt8 :=
    (((bytes.drop (7 * part)).take 7).zipIdx).foldl
      (fun b (byte, i) => b ||| ((byte &&& 0x80) >>> UInt8.ofNat (1 + i))) 0
  bytes.map (· &&& 0x7F) ++ [topBits 0, topBits 1, topBits 2, topBits 3]

/-- `EthereumStorageAddress::new`. -/
def pubkey [Platform] [Runtime] (base : Pubkey) (index : U256) : Pubkey :=
  Platform.createWithSeed base (makeSeed index) programId

/-- `get`. -/
def get (rest : Bytes) (subindex : UInt8) : U256 :=
  match (chunksExact RECORD rest).find? (·.head? = some subindex) with
  | some chunk => U256.ofBytes chunk.tail
  | none => 0

/-- The rest after a record that is there was overwritten. -/
def setPresent (rest : Bytes) (subindex : UInt8) (value : U256) : Option Bytes :=
  ((chunksExact RECORD rest).findIdx? (·.head? = some subindex)).map fun i =>
    overwrite rest (RECORD * i + 1) value.bytes

/-- The rest after `set`. -/
def setRest (rest : Bytes) (subindex : UInt8) (value : U256) : Bytes :=
  (setPresent rest subindex value).getD (rest ++ record subindex value)

end EthereumStorage

/-! ## A page is a map from bytes to words -/

namespace EthereumStorage

/-- The records of a page. -/
abbrev Cells : Type := List (UInt8 × U256)

/-- The records in a row. -/
def rowOf (cells : Cells) : Bytes := (cells.map fun c => record c.1 c.2).flatten

/-- A row of records. -/
def IsRow (rest : Bytes) : Prop := ∃ cells : Cells, rest = rowOf cells

/-- The value of a byte; zero where there is no record of it. -/
def valueIn (cells : Cells) (subindex : UInt8) : U256 :=
  ((cells.find? (·.1 = subindex)).map Prod.snd).getD 0

/-- The records after a write. -/
def setCells (subindex : UInt8) (value : U256) : Cells → Cells
  | [] => [(subindex, value)]
  | c :: cells => if c.1 = subindex then (subindex, value) :: cells else c :: setCells subindex value cells

variable {cells : Cells} {subindex other : UInt8} {value : U256}

@[simp] theorem length_record : (record subindex value).length = RECORD := by
  rw [record, List.length_cons, U256.length_bytes]
  rfl

theorem length_of_mem_records {c : Bytes} (hc : c ∈ cells.map fun c => record c.1 c.2) :
    c.length = RECORD := by
  obtain ⟨c, -, rfl⟩ := List.mem_map.1 hc
  exact length_record

theorem chunksExact_rowOf (cells : Cells) :
    chunksExact RECORD (rowOf cells) = cells.map fun c => record c.1 c.2 :=
  chunksExact_flatten (by decide) fun _ => length_of_mem_records

theorem head?_record (c : UInt8 × U256) :
    decide ((record c.1 c.2).head? = some subindex) = decide (c.1 = subindex) := by
  simp only [record, List.head?_cons, Option.some.injEq]

/-- **`get` reads the records.** -/
theorem get_rowOf (cells : Cells) (subindex : UInt8) :
    get (rowOf cells) subindex = valueIn cells subindex := by
  rw [get, chunksExact_rowOf, List.find?_map, valueIn]
  simp only [Function.comp_def, head?_record]
  cases cells.find? fun c => decide (c.1 = subindex) with
  | none => rfl
  | some c => exact U256.ofBytes_bytes c.2

/-- A write overwrites the first record of its byte, or adds one. -/
theorem setCells_eq (cells : Cells) :
    setCells subindex value cells =
      ((cells.findIdx? (·.1 = subindex)).map fun i => cells.set i (subindex, value)).getD
        (cells ++ [(subindex, value)]) := by
  induction cells with
  | nil => rfl
  | cons c cells ih =>
    rw [setCells, List.findIdx?_cons]
    by_cases h : c.1 = subindex
    · simp [h]
    · rw [if_neg h, ih]
      cases cells.findIdx? fun c => decide (c.1 = subindex) <;> simp [h]

theorem overwrite_record (c : UInt8 × U256) :
    overwrite (record c.1 c.2) 1 value.bytes = record c.1 value := by
  have hlen : (c.1 :: c.2.bytes).length ≤ 1 + value.bytes.length := by
    rw [List.length_cons, U256.length_bytes, U256.length_bytes, Nat.add_comm]
  rw [overwrite, record, record, List.take_succ_cons, List.take_zero, List.drop_eq_nil_of_le hlen,
    List.append_nil, List.singleton_append]

/-- **`set` writes the records.** -/
theorem setRest_rowOf (cells : Cells) (subindex : UInt8) (value : U256) :
    setRest (rowOf cells) subindex value = rowOf (setCells subindex value cells) := by
  rw [setRest, setPresent, chunksExact_rowOf, List.findIdx?_map, setCells_eq]
  simp only [Function.comp_def, head?_record]
  cases hi : cells.findIdx? fun c => decide (c.1 = subindex) with
  | none => simp [rowOf]
  | some i =>
    obtain ⟨h, hc, -⟩ := List.findIdx?_eq_some_iff_getElem.1 hi
    have hwrite := @overwrite_flatten _ RECORD _ (fun _ => length_of_mem_records) i 1
      (record cells[i].1 cells[i].2) value.bytes
      (by rw [List.getElem?_map, List.getElem?_eq_getElem h, Option.map_some])
      (by rw [U256.length_bytes]; rfl)
    rw [Option.map_some, Option.getD_some, Option.map_some, Option.getD_some, rowOf, hwrite,
      overwrite_record, of_decide_eq_true hc, rowOf, List.map_set]

theorem setRest_nil : setRest [] subindex value = record subindex value := rfl

/-- **Reading what was written.** -/
theorem valueIn_setCells (cells : Cells) :
    valueIn (setCells subindex value cells) other =
      if other = subindex then value else valueIn cells other := by
  induction cells with
  | nil => by_cases h : other = subindex <;> simp [setCells, valueIn, h, eq_comm]
  | cons c cells ih =>
    rw [valueIn, valueIn] at ih
    rw [setCells, valueIn, valueIn]
    by_cases hc : c.1 = subindex
    · rw [if_pos hc]
      by_cases h : other = subindex
      · simp [h]
      · have hother : ¬c.1 = other := fun e => h (e.symm.trans hc)
        simp [h, Ne.symm h, hother]
    · rw [if_neg hc, List.find?_cons, List.find?_cons]
      by_cases h : c.1 = other
      · have hother : ¬other = subindex := fun e => hc (h.trans e)
        simp [h, hother]
      · simpa [h] using ih

theorem isRow_nil : IsRow [] := ⟨[], rfl⟩

theorem IsRow.setRest {rest : Bytes} (h : IsRow rest) : IsRow (setRest rest subindex value) := by
  obtain ⟨cells, rfl⟩ := h
  exact ⟨_, setRest_rowOf cells subindex value⟩

theorem isRow_record : IsRow (record subindex value) := ⟨[(subindex, value)], by simp [rowOf]⟩

/-- **Reading a page that was written.** -/
theorem get_setRest {rest : Bytes} (h : IsRow rest) :
    get (EthereumStorage.setRest rest subindex value) other =
      if other = subindex then value else get rest other := by
  obtain ⟨cells, rfl⟩ := h
  rw [setRest_rowOf, get_rowOf, get_rowOf, valueIn_setCells]

theorem get_nil : get [] other = 0 := get_rowOf [] other

theorem get_record : get (record subindex value) other = if other = subindex then value else 0 := by
  rw [← setRest_nil, get_setRest isRow_nil, get_nil]

end EthereumStorage

end NeonEvm
