import NeonEvm.Evm.Eof
import NeonEvm.Evm.OpcodeInfo

/-!
# Evm/Validate — what an EOF container must pass to be deployed

A linear scan of every section (`validateCode`), then a walk over its control flow with the height
of the stack (`validateControlFlow`).  The loops of the source run on a fuel that the length of the
section gives.
-/

namespace NeonEvm

open Exec

/-- `isize as usize`. -/
def usizeOfInt (z : ℤ) : ℕ := (z % (USIZE : ℤ)).toNat

/-! ## The bitmap of immediates -/

/-- `Bitvec`: a set bit marks a byte of immediate data. -/
structure Bitvec where
  bits : Bytes

def BITS_MASK : List ℕ := [0, 1, 0b11, 0b111, 0b1111, 0b11111, 0b111111, 0b1111111]

namespace Bitvec

/-- `Bitvec::new`. -/
def new (capacity : ℕ) : Bitvec := ⟨List.replicate capacity 0⟩

/-- `self.0[i] = byte`. -/
def put (b : Bitvec) (i : ℕ) (byte : UInt8) : Fallible Bitvec :=
  if i < b.bits.length then pure ⟨b.bits.set i byte⟩ else abort .index

/-- `self.0[i] |= byte`. -/
def merge (b : Bitvec) (i : ℕ) (byte : UInt8) : Fallible Bitvec := do
  b.put i ((← byteAt b.bits i) ||| byte)

/-- `Bitvec::set_n`. -/
def setN (b : Bitvec) (flag pos : ℕ) : Fallible Bitvec := do
  let a := flag <<< (pos % 8) % U16_SIZE
  let b ← b.merge (pos / 8) (UInt8.ofNat a)
  let high := UInt8.ofNat (a >>> 8)
  if high ≠ 0 then b.put (pos / 8 + 1) high else pure b

/-- `Bitvec::set8`. -/
def set8 (b : Bitvec) (pos : ℕ) : Fallible Bitvec := do
  let a := UInt8.ofNat (0xFF <<< (pos % 8))
  let b ← b.merge (pos / 8) a
  b.put (pos / 8 + 1) (~~~a)

/-- `Bitvec::set16`. -/
def set16 (b : Bitvec) (pos : ℕ) : Fallible Bitvec := do
  let a := UInt8.ofNat (0xFF <<< (pos % 8))
  let b ← b.merge (pos / 8) a
  let b ← b.put (pos / 8 + 1) 0xFF
  b.put (pos / 8 + 2) (~~~a)

/-- `Bitvec::is_code_segment`. -/
def isCodeSegment (b : Bitvec) (pos : ℕ) : Fallible Bool := do
  pure (((← byteAt b.bits (pos / 8)) >>> UInt8.ofNat (pos % 8)) &&& 1 = 0)

/-- Mark `numbits` bytes from `pc` on, sixteen and eight at a time and then the rest; the number of
bytes is a `u8`. -/
def mark (b : Bitvec) (numbits : UInt8) (pc : ℕ) : Fallible (Bitvec × ℕ) := do
  let n := numbits.toNat
  let b ← foldl (fun b k => b.set16 (pc + 16 * k)) b (List.range (n / 16))
  let pc := pc + 16 * (n / 16)
  let (b, pc) ← if 8 ≤ n % 16 then do pure (← b.set8 pc, pc + 8) else pure (b, pc)
  match BITS_MASK[n % 8]? with
  | some flag => if 1 ≤ n % 8 then do pure (← b.setN flag pc, pc + n % 8) else pure (b, pc)
  | none => abort .index

/-- The size of the immediate data behind an opcode other than `RJUMPV`. -/
def immediateSize (op : UInt8) : UInt8 :=
  if opcode.PUSH1 ≤ op ∧ op ≤ opcode.PUSH32 then op - opcode.PUSH1 + 1
  else if op = opcode.RJUMP ∨ op = opcode.RJUMPI ∨ op = opcode.CALLF then 2
  else 0

/-- `Bitvec::eof_code_bitmap_internal`, from `pc` on. -/
def eofCodeBitmapInternal (code : Buffer) : (fuel : ℕ) → Bitvec → ℕ → Fallible Bitvec
  | 0, _, _ => abort .diverge
  | fuel + 1, b, pc =>
    if code.len ≤ pc then pure b
    else
      let op := code.getOrDefault pc
      let pc := pc + 1
      if op = opcode.RJUMPV then
        if code.len ≤ pc then pure b
        else do
          -- `u8` arithmetic: the table of a large count wraps around
          let numbits := code.getOrDefault pc * 2 + 1
          let numbits :=
            if code.len < pc + numbits.toNat then UInt8.ofNat (code.len - pc) else numbits
          let (b, pc) ← b.mark numbits pc
          eofCodeBitmapInternal code fuel b pc
      else do
        let (b, pc) ← b.mark (immediateSize op) pc
        eofCodeBitmapInternal code fuel b pc

/-- `Bitvec::eof_code_bitmap`. -/
def eofCodeBitmap (code : Buffer) : Fallible Bitvec :=
  eofCodeBitmapInternal code (code.len + 1) (new (code.len / 8 + 1 + 4)) 0

end Bitvec

namespace Container

open opcode

def DEPRECATED_OPCODES : List UInt8 := [CALLCODE, SELFDESTRUCT, JUMP, JUMPI, PC]

/-! ## The linear scan -/

/-- `Container::check_dest`. -/
def checkDest (code : Buffer) (analysisOption : Option Bitvec) (imm start length : ℕ) :
    Fallible Bitvec := do
  require (imm + 2 ≤ code.len) .unexpectedEndOfFile
  let analysis ← match analysisOption with
    | none => Bitvec.eofCodeBitmap code
    | some a => pure a
  let offset := code.getI16OrDefault imm
  let dest := usizeOfInt (start + offset)
  require (dest < length) (.validationInvalidJumpDest offset dest imm)
  require (← analysis.isCodeSegment dest) (.validationInvalidJumpDest offset dest imm)
  pure analysis

/-- What the scan of a section keeps. -/
structure Scan where
  i : ℕ
  instructionCount : ℕ
  analysis : Option Bitvec
  opcode : UInt8

/-- The body of the scanning loop; the cases exclude one another by the opcode. -/
def scanInstruction (code : Buffer) (metadata : List FunctionMetadata) (s : Scan) :
    Fallible Scan := do
  let i := s.i
  let op := code.getOrDefault i
  let s := { s with instructionCount := s.instructionCount + 1, opcode := op }
  require (!(!OpcodeInfo.isOpcodeValid op && DEPRECATED_OPCODES.contains op))
    (.validationUndefinedInstruction op i)
  if PUSH0 < op ∧ op ≤ PUSH32 then do
    let size := (op - PUSH0).toNat
    require (i + size < code.len) (.validationTruncatedImmediate op i)
    pure { s with i := i + size + 1 }
  else if op = RJUMP ∨ op = RJUMPI then do
    require (i + 2 < code.len) (.validationTruncatedImmediate op i)
    let analysis ← checkDest code s.analysis (i + 1) (i + 3) code.len
    pure { s with i := i + 2 + 1, analysis := some analysis }
  else if op = RJUMPV then do
    require (i + 1 < code.len) (.validationTruncatedImmediate op i)
    -- the source stores the branch count in the counter of instructions
    let count := (code.getOrDefault (i + 1)).toNat
    require (count ≠ 0) (.validationInvalidBranchCount i)
    require (i + count < code.len) (.validationTruncatedImmediate op i)
    let analysis ← foldl
      (fun a j => do
        pure (some (← checkDest code a (i + 2 + j * 2) (i + 2 * count + 2) code.len)))
      s.analysis (List.range count)
    pure { s with i := i + 1 + 2 * count + 1, instructionCount := count, analysis := analysis }
  else if op = CALLF then do
    require (i + 2 < code.len) (.validationTruncatedImmediate op i)
    let arg := code.getU16OrDefault (i + 1)
    require (arg < metadata.length)
      (.validationInvalidSectionArgument arg metadata.length i)
    pure { s with i := i + 2 + 1 }
  else pure { s with i := i + 1 }

/-- The scanning loop. -/
def scan (code : Buffer) (metadata : List FunctionMetadata) :
    (fuel : ℕ) → Scan → Fallible Scan
  | 0, _ => abort .diverge
  | fuel + 1, s =>
    if s.i < code.len then do
      scan code metadata fuel (← scanInstruction code metadata s)
    else pure s

/-! ## The control flow -/

/-- A position still to be visited and the height of the stack there. -/
structure Item where
  pos : ℕ
  height : ℕ

/-- What the walk keeps: the heights found so far, how many positions have one, the largest height,
and the positions still to visit, the last one first. -/
structure Walk where
  heights : List (Option ℕ)
  heightUpdate : ℕ
  maxStackHeight : ℕ
  worklist : List Item

/-- How the visit of a position goes on: at another position, or with the next item. -/
inductive Visit where
  | goOn (item : Item) (walk : Walk)
  | stop (walk : Walk)

/-- Where the control flow goes from `op` at `pos`, the stack at `height`. -/
def followInstruction (code : Buffer) (metadata : List FunctionMetadata)
    (current : FunctionMetadata) (op : UInt8) (terminal : Bool) (pos height : ℕ) (w : Walk) :
    Fallible Visit := do
  if op = CALLF then do
    let arg := code.getU16OrDefault (pos + 1)
    let callee ← match metadata[arg]? with
      | some m => pure m
      | none => fail (.functionMetadataNotFound arg)
    require (callee.input.toNat ≤ height) .stackUnderflow
    require (callee.output.toNat + height ≤ STACK_LIMIT) .stackOverflow
    pure (.goOn ⟨pos + 3, height - callee.input.toNat + callee.output.toNat⟩ w)
  else if op = RETF then do
    require (current.output.toNat = height) (.validationInvalidOutputs current.output height pos)
    pure (.stop w)
  else if op = RJUMP then
    let arg := code.getI16OrDefault (pos + 1)
    pure (.goOn ⟨usizeOfInt (pos + 3 + arg), height⟩ w)
  else if op = RJUMPI then
    let arg := code.getI16OrDefault (pos + 1)
    pure (.goOn ⟨pos + 3, height⟩
      { w with worklist := ⟨usizeOfInt (pos + 3 + arg), height⟩ :: w.worklist })
  else if op = RJUMPV then
    let count := (code.getOrDefault (pos + 1)).toNat
    let items := (List.range count).map fun i =>
      let arg := code.getI16OrDefault (pos + 2 + 2 * i)
      Item.mk (usizeOfInt (pos + 2 + 2 * count + arg)) height
    pure (.goOn ⟨pos + 2 + 2 * count, height⟩ { w with worklist := items.reverse ++ w.worklist })
  else if PUSH1 ≤ op ∧ op ≤ PUSH32 then
    pure (.goOn ⟨pos + 1 + (op - PUSH0).toNat, height⟩ w)
  else if terminal then pure (.stop w)
  else pure (.goOn ⟨pos + 1, height⟩ w)

/-- The body of the inner loop, at a position inside the code. -/
def visitInstruction (code : Buffer) (metadata : List FunctionMetadata)
    (current : FunctionMetadata) (item : Item) (w : Walk) : Fallible Visit := do
  let op := code.getOrDefault item.pos
  match (← ofOption .index w.heights[item.pos]?) with
  | some want =>
    require (want = item.height) (.validationConflictingStack item.height want)
    pure (.stop w)
  | none =>
    let w := { w with
      heights := w.heights.set item.pos (some item.height)
      heightUpdate := w.heightUpdate + 1 }
    OpcodeInfo.assertOpcodeValid op
    let info ← ofOption .unwrap (OpcodeInfo.find? op)
    require (info.minStack ≤ item.height) .stackUnderflow
    require (item.height ≤ info.maxStack) .stackOverflow
    let height := item.height + STACK_LIMIT - info.maxStack
    match (← followInstruction code metadata current op info.terminal item.pos height w) with
    | .goOn next w =>
      pure (.goOn next { w with maxStackHeight := max w.maxStackHeight next.height })
    | .stop w => pure (.stop w)

/-- Both loops: visit from `item` while it stays inside the code, then take the next item. -/
def walk (code : Buffer) (metadata : List FunctionMetadata) (current : FunctionMetadata) :
    (fuel : ℕ) → Option Item → Walk → Fallible Walk
  | 0, _, _ => abort .diverge
  | fuel + 1, none, w =>
    match w.worklist with
    | [] => pure w
    | item :: rest => walk code metadata current fuel (some item) { w with worklist := rest }
  | fuel + 1, some item, w =>
    if item.pos < code.len then do
      match (← visitInstruction code metadata current item w) with
      | .goOn next w => walk code metadata current fuel (some next) w
      | .stop w => walk code metadata current fuel none w
    else walk code metadata current fuel none w

/-- Enough for every run of `walk`: a position is visited once and leaves at most 255 items. -/
def walkFuel (len : ℕ) : ℕ := 1024 * (len + 1)

/-- `Container::validate_control_flow`. -/
def validateControlFlow (code : Buffer) (sectionIndex : ℕ) (metadata : List FunctionMetadata) :
    Fallible ℕ := do
  let current ← match metadata[sectionIndex]? with
    | some m => pure m
    | none => fail (.functionMetadataNotFound sectionIndex)
  let height := current.input.toNat
  let w ← walk code metadata current (walkFuel code.len) none
    ⟨List.replicate code.len none, 0, height, [⟨0, height⟩]⟩
  require (w.maxStackHeight = current.maxStackHeight)
    (.validationInvalidMaxStackHeight sectionIndex w.maxStackHeight current.maxStackHeight)
  pure w.heightUpdate

/-- `Container::validate_code`. -/
def validateCode (code : Buffer) (sectionIndex : ℕ) (metadata : List FunctionMetadata) :
    Fallible Unit := do
  let s ← scan code metadata (code.len + 1) ⟨0, 0, none, 0⟩
  require (OpcodeInfo.isTerminalOpcode s.opcode)
    (.validationInvalidCodeTermination s.opcode s.i)
  let path ← validateControlFlow code sectionIndex metadata
  require (path = s.instructionCount) .validationUnreachableCode

/-- `Container::validate_container`. -/
def validateContainer (c : Container) : Fallible Unit := do
  let _ ← forEach (fun (code, i) => validateCode code i c.types) c.code.zipIdx
  pure ()

end Container

end NeonEvm
