import NeonEvm.Error
import NeonEvm.Evm.Buffer

/-!
# Evm/Eof — the container of an EOF contract

    ef00 01 | 01 size | 02 count sizes | 03 size | 00 | types | code … | data

`Container.unmarshalBinary` reads one; sizes are `u16` and add up modulo 2 ^ 16.
-/

namespace NeonEvm

open Exec

def OFFSET_TYPES_KIND : ℕ := 3
def OFFSET_CODE_KIND : ℕ := 6

def EOF1_VERSION : UInt8 := 1

def EOF_MAGIC : Bytes := [0xef, 0x00]

def HEADER_LEN_WITHOUT_TERMINATOR : ℕ := 14
def SECTION_LEN : ℕ := 3

/-- The number of values of a `u16`. -/
def U16_SIZE : ℕ := 2 ^ 16

/-- `assert_eof_version_1`. -/
def assertEofVersion1 (bytes : Buffer) : Fallible Unit :=
  if 2 < bytes.len ∧ bytes.toList[2]? = some EOF1_VERSION then pure ()
  else do fail (.invalidVersion (← byteAt bytes.toList 2))

/-- `has_eof_magic`. -/
def hasEofMagic (bytes : Buffer) : Bool := EOF_MAGIC.isPrefixOf bytes.toList

/-- `FunctionMetadata`, an EOF function signature. -/
structure FunctionMetadata where
  input : UInt8
  output : UInt8
  maxStackHeight : ℕ
  deriving DecidableEq

/-- `Container`, an EOF container object. -/
structure Container where
  types : List FunctionMetadata
  code : List Buffer
  data : Buffer
  deriving DecidableEq

namespace FunctionMetadata

def MAX_INPUT_ITEMS : UInt8 := 127
def MAX_OUTPUT_ITEMS : UInt8 := 127
def MAX_STACK_HEIGHT : ℕ := 1023

/-- `FunctionMetadata::assert_valid`: all three errors carry the number of inputs. -/
def assertValid (m : FunctionMetadata) (sectionIndex : UInt8) : Fallible Unit := do
  require (m.input ≤ MAX_INPUT_ITEMS) (.tooManyInputs sectionIndex m.input)
  require (m.output ≤ MAX_OUTPUT_ITEMS) (.tooManyOutputs sectionIndex m.input)
  require (m.maxStackHeight ≤ MAX_STACK_HEIGHT) (.tooLargeMaxStackHeight sectionIndex m.input)

/-- `FunctionMetadata::_to_bytes`. -/
def toBytes (m : FunctionMetadata) : Bytes :=
  [m.input, m.output, UInt8.ofNat (m.maxStackHeight >>> 8), UInt8.ofNat (m.maxStackHeight &&& 0xff)]

end FunctionMetadata

/-- `SectionKind`. -/
inductive SectionKind where
  | type
  | code
  | data
  deriving DecidableEq

namespace SectionKind

/-- `kind as u8`. -/
def toU8 : SectionKind → UInt8
  | type => 1
  | code => 2
  | data => 3

/-- `SectionKind::try_from`. -/
def tryFrom (kind : UInt8) : Fallible SectionKind :=
  if kind = 1 then pure type
  else if kind = 2 then pure code
  else if kind = 3 then pure data
  else fail (.unknownSectionHeader kind)

/-- `SectionKind::assert`. -/
def assert (kind expected : SectionKind) : Fallible Unit :=
  require (kind = expected) (.missingSectionHeader expected.toU8 kind.toU8)

end SectionKind

/-- `Section`. -/
structure Section where
  kind : SectionKind
  size : ℕ

/-- `Section::parse`. -/
def Section.parse (bytes : Buffer) (idx : ℕ) : Fallible Section := do
  require (idx + SECTION_LEN < bytes.len) .unexpectedEndOfFile
  let kind ← SectionKind.tryFrom (← byteAt bytes.toList idx)
  pure ⟨kind, bytes.getU16OrDefault (idx + 1)⟩

/-- `SectionList`. -/
structure SectionList where
  kind : SectionKind
  list : List ℕ

namespace SectionList

/-- `SectionList::parse_list`. -/
def parseList (bytes : Buffer) (idx : ℕ) : Fallible (List ℕ) := do
  require (idx + 2 ≤ bytes.len) .unexpectedEndOfFile
  let count := bytes.getU16OrDefault idx
  require (idx + 2 + count * 2 < bytes.len) .unexpectedEndOfFile
  pure ((List.range count).map fun i => bytes.getU16OrDefault (idx + 2 + 2 * i))

/-- `SectionList::parse`. -/
def parse (bytes : Buffer) (idx : ℕ) : Fallible SectionList := do
  require (idx < bytes.len) .unexpectedEndOfFile
  let kind ← SectionKind.tryFrom (← byteAt bytes.toList idx)
  let list ← parseList bytes (idx + 1)
  pure ⟨kind, list⟩

/-- `SectionList::total_size`, a `u16`. -/
def totalSize (l : SectionList) : ℕ := l.list.sum % U16_SIZE

end SectionList

namespace Container

/-- The signature of a section, read from the type section at `idx`. -/
def readSignature (bytes : Buffer) (idx sectionIndex : ℕ) : Fallible FunctionMetadata := do
  let input ← byteAt bytes.toList (idx + sectionIndex * 4)
  let output ← byteAt bytes.toList (idx + sectionIndex * 4 + 1)
  let signature := ⟨input, output, bytes.getU16OrDefault (idx + sectionIndex * 4 + 2)⟩
  FunctionMetadata.assertValid signature (UInt8.ofNat sectionIndex)
  pure signature

/-- The code sections from number `i` on, the first at `idx`, and the index behind them. -/
def readCode (bytes : Buffer) : (i idx : ℕ) → List ℕ → Fallible (List Bytes × ℕ)
  | _, idx, [] => pure ([], idx)
  | i, idx, size :: sizes => do
    require (size ≠ 0) (.invalidCodeSize i)
    let code ← sliceOf bytes.toList idx (idx + size)
    let (codes, stop) ← readCode bytes (i + 1) (idx + size) sizes
    pure (code :: codes, stop)

/-- `Container::_marshal_binary`; what is too long for a `u16` is cut to one. -/
def marshalBinary (c : Container) : Buffer :=
  Buffer.fromSlice (EOF_MAGIC ++ [EOF1_VERSION]
    ++ [SectionKind.type.toU8] ++ toBeBytes 2 (c.types.length * 4)
    ++ [SectionKind.code.toU8] ++ toBeBytes 2 c.code.length
    ++ c.code.flatMap (fun code => toBeBytes 2 code.len)
    ++ [SectionKind.data.toU8] ++ toBeBytes 2 c.data.len ++ [0]
    ++ c.types.flatMap FunctionMetadata.toBytes ++ c.code.flatMap Buffer.toList ++ c.data.toList)

/-- `PartialEq for Container`: buffers are compared by their bytes. -/
def Same (c d : Container) : Prop :=
  c.types = d.types ∧ c.code.map Buffer.toList = d.code.map Buffer.toList ∧
    c.data.toList = d.data.toList

/-- `Container::unmarshal_binary`. -/
def unmarshalBinary (bytes : Buffer) : Fallible Container := do
  require (hasEofMagic bytes) .invalidMagic
  require (HEADER_LEN_WITHOUT_TERMINATOR ≤ bytes.len) .unexpectedEndOfFile
  assertEofVersion1 bytes
  let typeSection ← Section.parse bytes OFFSET_TYPES_KIND
  typeSection.kind.assert .type
  require (4 ≤ typeSection.size ∧ typeSection.size % 4 = 0)
    (.invalidTypeSizeMustBeDivisibleBy4 typeSection.size)
  let typeSectionSize := typeSection.size / 4
  require (typeSectionSize ≤ 1024) (.invalidTypeSizeExceed typeSection.size)
  let codeSectionList ← SectionList.parse bytes OFFSET_CODE_KIND
  codeSectionList.kind.assert .code
  let codeSections := codeSectionList.list.length
  require (codeSections = typeSectionSize) (.mismatchCodeSize typeSectionSize codeSections)
  let offsetDataKind := OFFSET_CODE_KIND + 2 + 2 * codeSections + 1
  let dataSection ← Section.parse bytes offsetDataKind
  dataSection.kind.assert .data
  let offsetTerminator := offsetDataKind + 3
  match bytes.toList[offsetTerminator]? with
  | none => fail .unexpectedEndOfFile
  | some terminator => require (terminator = 0) (.missingTerminator terminator)
  let expectedSize :=
    (offsetTerminator + typeSection.size + codeSectionList.totalSize + dataSection.size + 1)
      % U16_SIZE
  require (bytes.len = expectedSize) (.invalidContainerSize bytes.len expectedSize)
  let idx := offsetTerminator + 1
  let types ← forEach (readSignature bytes idx) (List.range typeSectionSize)
  let first ← ofOption .index types[0]?
  require (first.input = 0 ∧ first.output = 0) (.invalidSection0Type first.input first.output)
  let (code, idx) ← readCode bytes 0 (idx + typeSection.size) codeSectionList.list
  let data ← sliceOf bytes.toList idx (idx + dataSection.size)
  pure ⟨types, code.map Buffer.fromSlice, Buffer.fromSlice data⟩

end Container

end NeonEvm
