import NeonEvm.Evm.Memory
import NeonEvm.Lib.Cells

/-!
# Evm/MemoryRuns — memory as a zero-filled array that grows

    read o n = [f o, …, f (o + n − 1)]      f i the byte last written at i, or 0

A sequence of operations on a new memory keeps to this as long as none of them ends behind the limit:
such an access is refused, but `realloc` has raised `size` by then.
-/

namespace NeonEvm

namespace Memory

open Cells Chunks

/-! ## Operations -/

/-- An operation on memory; `save` serialises it and reads it back. -/
inductive Op where
  | read (offset length : ℕ)
  | read32 (offset : ℕ)
  | write32 (offset : ℕ) (value : U256)
  | writeByte (offset : ℕ) (value : UInt8)
  | writeBuffer (offset length : ℕ) (source : Bytes) (sourceOffset : ℕ)
  | writeRange (range : Range) (source : Bytes)
  | readBuffer (offset length : ℕ)
  | save

/-- What an operation answers. -/
inductive Reply where
  | bytes (bytes : Bytes)
  | word (word : U256)
  | buffer (buffer : Buffer)
  | done
  | failed (e : Error)
  | unreadable
  deriving DecidableEq

/-- The answer that a result stands for. -/
def Reply.of {α : Type} (f : α → Reply) : Except Error α → Reply
  | .ok a => f a
  | .error e => .failed e

/-- The operation was refused. -/
def Reply.refused : Reply → Bool
  | .failed _ => true
  | _ => false

/-- Run an operation. -/
def Op.run (m : Memory) : Op → Memory × Reply
  | .read offset length => Prod.map id (Reply.of .bytes) (m.read offset length)
  | .read32 offset => Prod.map id (Reply.of .word) (m.read32 offset)
  | .write32 offset value => Prod.map id (Reply.of fun _ => .done) (m.write32 offset value)
  | .writeByte offset value => Prod.map id (Reply.of fun _ => .done) (m.writeByte offset value)
  | .writeBuffer offset length source sourceOffset =>
    Prod.map id (Reply.of fun _ => .done) (m.writeBuffer offset length source sourceOffset)
  | .writeRange range source => Prod.map id (Reply.of fun _ => .done) (m.writeRange range source)
  | .readBuffer offset length => Prod.map id (Reply.of .buffer) (m.readBuffer offset length)
  | .save =>
    match m.serialize.bind deserialize with
    | some m' => (m', .done)
    | none => (m, .unreadable)

/-! ## What they are to do -/

/-- The positions that an operation touches. -/
def Op.span : Op → ℕ × ℕ
  | .read offset length => (offset, length)
  | .read32 offset => (offset, 32)
  | .write32 offset _ => (offset, 32)
  | .writeByte offset _ => (offset, 1)
  | .writeBuffer offset length _ _ => (offset, length)
  | .writeRange range _ => (range.start, range.len)
  | .readBuffer offset length => (offset, length)
  | .save => (0, 0)

/-- The bytes afterwards, `f i` being the one at `i` before. -/
def Op.effect (f : ℕ → UInt8) : Op → ℕ → UInt8
  | .write32 offset value => overlay f offset value.bytes
  | .writeByte offset value => overlay f offset [value]
  | .writeBuffer offset length source sourceOffset =>
    overlay f offset (window (cells 0 source) sourceOffset length)
  | .writeRange range source => overlay f range.start (window (cells 0 source) 0 range.len)
  | _ => f

/-- The answer, `f i` being the byte at `i`. -/
def Op.answer (f : ℕ → UInt8) : Op → Reply
  | .read offset length => .bytes (window f offset length)
  | .read32 offset => .word (U256.ofBytes (window f offset 32))
  | .readBuffer offset length => .buffer (Buffer.fromSlice (window f offset length))
  | _ => .done

/-- What holds of a memory: whole words in use, within the limit, and zeros behind them. -/
structure Good (m : Memory) : Prop where
  length : m.data.length = m.capacity
  words : m.size % 32 = 0
  size_le : m.size ≤ m.capacity
  capacity_le : m.capacity ≤ MAX_MEMORY_SIZE
  blank : ∀ i, m.size ≤ i → cells 0 m.data i = 0

/-- An operation does what it is to do, where `f i` is the byte last written at `i`. -/
structure Correct (f : ℕ → UInt8) (m : Memory) (op : Op) : Prop where
  good : (op.run m).1.Good
  refused : (op.run m).2.refused = true → (op.run m).1 = m
  carried : (op.run m).2.refused = false →
    (op.run m).2 = op.answer f ∧ cells 0 (op.run m).1.data = op.effect f

/-- A memory after some operations, and the bytes last written. -/
def after (ops : List Op) : Memory × (ℕ → UInt8) :=
  ops.foldl (fun s op =>
    ((op.run s.1).1, if (op.run s.1).2.refused then s.2 else op.effect s.2)) (.new, fun _ => 0)

/-- The operation touches nothing, or ends within the limit, or nowhere: its end, rounded to whole
words, is no `usize`. -/
def Op.Within (op : Op) : Prop :=
  op.span.2 = 0 ∨ op.span.1 + op.span.2 ≤ MAX_MEMORY_SIZE ∨ USIZE ≤ op.span.1 + op.span.2 + 31

variable {m m' : Memory} {offset length : ℕ} {f : ℕ → UInt8}

/-! ## Making room -/

theorem checkedNextMultipleOf32_bind (h : offset + length + 31 < USIZE) :
    (checkedAdd offset length).bind checkedNextMultipleOf32 =
      some ((offset + length + 31) / 32 * 32) := by
  rw [checkedAdd, if_pos (by omega), Option.bind_some, checkedNextMultipleOf32, checkedAdd,
    if_pos h, Option.map_some]

/-- The end of the range, in whole words, is no `usize`. -/
theorem realloc_overflow (h : USIZE ≤ offset + length + 31) :
    m.realloc offset length = (m, .error (.memoryAccessOutOfLimits offset length)) := by
  have hnone : (checkedAdd offset length).bind checkedNextMultipleOf32 = none := by
    rw [checkedAdd]
    split_ifs
    · rw [Option.bind_some, checkedNextMultipleOf32, checkedAdd, if_neg (by omega), Option.map_none]
    · rfl
  simp only [realloc, hnone]

/-- **Room is made** within the limit, and no byte changes. -/
theorem realloc_ok (hm : m.Good) (h : offset + length ≤ MAX_MEMORY_SIZE) :
    ∃ m', m.realloc offset length = (m', .ok ()) ∧ m'.Good ∧ offset + length ≤ m'.size ∧
      cells 0 m'.data = cells 0 m.data := by
  have hlimit : MAX_MEMORY_SIZE = 2 ^ 16 := rfl
  have husize : USIZE = 2 ^ 64 := rfl
  simp only [realloc, checkedNextMultipleOf32_bind (show offset + length + 31 < USIZE by omega)]
  set newSize := (offset + length + 31) / 32 * 32 with hnew
  have hsize : (if m.size < newSize then { m with size := newSize } else m) =
      { m with size := max m.size newSize } := by
    obtain ⟨data, capacity, size⟩ := m
    split_ifs with hlt
    · rw [max_eq_right hlt.le]
    · rw [max_eq_left (not_lt.1 hlt)]
  have hwords : max m.size newSize % 32 = 0 := by
    rcases max_choice m.size newSize with hmax | hmax
    · rw [hmax, hm.words]
    · rw [hmax, hnew, Nat.mul_mod_left]
  have hend : offset + length ≤ max m.size newSize := le_max_of_le_right (by omega)
  have hblank : ∀ i, max m.size newSize ≤ i → cells 0 m.data i = 0 := fun i hi =>
    hm.blank i ((le_max_left ..).trans hi)
  rw [hsize]
  split_ifs with hroom
  · exact ⟨_, rfl, ⟨hm.length, hwords, max_le hm.size_le hroom, hm.capacity_le, hblank⟩, hend, rfl⟩
  · have hclog : Nat.clog 2 newSize ≤ 16 := Nat.clog_le_of_le_pow (by omega)
    have hpow : 2 ^ Nat.clog 2 newSize ≤ 2 ^ 16 := Nat.pow_le_pow_right (by decide) hclog
    have hle : newSize ≤ 2 ^ Nat.clog 2 newSize := Nat.le_pow_clog (by decide) _
    simp only [checkedNextPowerOfTwo, if_pos (show 2 ^ Nat.clog 2 newSize < USIZE by omega),
      if_neg (show ¬MAX_MEMORY_SIZE < 2 ^ Nat.clog 2 newSize by omega)]
    have hcap := hm.size_le
    have hgrown : m.size ≤ 2 ^ Nat.clog 2 newSize := by omega
    refine ⟨_, rfl, ⟨?_, hwords, max_le hgrown hle, hpow, fun i hi => ?_⟩, hend, ?_⟩
    · show (m.data ++ List.replicate _ 0).length = 2 ^ Nat.clog 2 newSize
      rw [List.length_append, List.length_replicate, hm.length]
      omega
    · rw [cells_append_replicate]
      exact hblank i hi
    · exact cells_append_replicate

/-- **Behind the limit** there is no room, but `size` has been raised. -/
theorem realloc_refused (hm : m.Good) (h : MAX_MEMORY_SIZE < offset + length)
    (hend : offset + length + 31 < USIZE) :
    MAX_MEMORY_SIZE < (m.realloc offset length).1.size ∧
      (m.realloc offset length).2 = .error (.memoryAccessOutOfLimits offset length) := by
  have hlimit : MAX_MEMORY_SIZE = 2 ^ 16 := rfl
  have hcap := hm.size_le.trans hm.capacity_le
  have hcap' := hm.capacity_le
  simp only [realloc, checkedNextMultipleOf32_bind hend]
  set newSize := (offset + length + 31) / 32 * 32 with hnew
  have hgreater : MAX_MEMORY_SIZE < newSize := by omega
  have hle : newSize ≤ 2 ^ Nat.clog 2 newSize := Nat.le_pow_clog (by decide) _
  rw [if_pos (show m.size < newSize by omega), if_neg (show ¬newSize ≤ m.capacity by omega)]
  by_cases hpow : 2 ^ Nat.clog 2 newSize < USIZE
  · simp only [checkedNextPowerOfTwo, if_pos hpow, if_pos (hgreater.trans_le hle)]
    exact ⟨hgreater, trivial⟩
  · simp only [checkedNextPowerOfTwo, if_neg hpow]
    exact ⟨hgreater, trivial⟩

/-! ## One operation -/

/-- **Reading.** -/
theorem slice_eq_window (hm : m.Good) (h : offset + length ≤ m.size) :
    m.slice offset length = window (cells 0 m.data) offset length :=
  take_drop_eq_window (by rw [hm.length]; exact h.trans hm.size_le)

/-- **Writing.** -/
theorem store_good {bytes : Bytes} (hm : m.Good) (h : offset + bytes.length ≤ m.size) :
    (m.store offset bytes).Good ∧
      cells 0 (m.store offset bytes).data = overlay (cells 0 m.data) offset bytes := by
  have hfits : offset + bytes.length ≤ m.data.length := hm.length ▸ h.trans hm.size_le
  have hcells : cells 0 (m.store offset bytes).data = overlay (cells 0 m.data) offset bytes :=
    cells_overwrite hfits
  refine ⟨⟨?_, hm.words, hm.size_le, hm.capacity_le, fun i hi => ?_⟩, hcells⟩
  · exact (length_overwrite hfits).trans hm.length
  · rw [hcells, overlay_of_not_mem (.inr (h.trans hi))]
    exact hm.blank i hi

/-- **The bytes of the source**, and zeros behind it. -/
theorem sourceBytes_eq_window {source : Bytes} {sourceOffset : ℕ} :
    sourceBytes length source sourceOffset = window (cells 0 source) sourceOffset length := by
  set padded := source ++ List.replicate (sourceOffset + length) 0 with hpadded
  have hcells : cells 0 padded = cells 0 source := cells_append_replicate
  have hlen : sourceOffset + length ≤ padded.length := by
    rw [hpadded, List.length_append, List.length_replicate]
    omega
  rw [← hcells, ← take_drop_eq_window hlen, sourceBytes, hpadded]
  split_ifs with hbehind hover
  · rw [List.drop_append, List.drop_eq_nil_of_le hbehind, List.nil_append, List.drop_replicate,
      List.take_replicate, Nat.min_eq_left (by omega)]
  · rw [List.drop_append_of_le_length (by omega), List.take_append,
      List.take_of_length_le (by rw [List.length_drop]; omega), List.length_drop,
      List.take_replicate, Nat.min_eq_left (by omega)]
  · rw [List.drop_append_of_le_length (by omega), List.take_append_of_le_length
      (by rw [List.length_drop]; omega)]

/-- An access that stays within the limit, or ends nowhere. -/
theorem realloc_within (hm : m.Good)
    (h : offset + length ≤ MAX_MEMORY_SIZE ∨ USIZE ≤ offset + length + 31) :
    (∃ m', m.realloc offset length = (m', .ok ()) ∧ m'.Good ∧ offset + length ≤ m'.size ∧
        cells 0 m'.data = cells 0 m.data) ∨
      ∃ e, m.realloc offset length = (m, .error e) :=
  h.imp (realloc_ok hm) fun h => ⟨_, realloc_overflow h⟩

/-- **What a read does.** -/
theorem read_cases (hm : m.Good)
    (h : length = 0 ∨ offset + length ≤ MAX_MEMORY_SIZE ∨ USIZE ≤ offset + length + 31) :
    (∃ m', m.read offset length = (m', .ok (window (cells 0 m.data) offset length)) ∧ m'.Good ∧
        cells 0 m'.data = cells 0 m.data) ∨
      ∃ e, m.read offset length = (m, .error e) := by
  rw [read]
  split_ifs with hzero
  · subst hzero
    exact .inl ⟨m, rfl, hm, rfl⟩
  · rcases realloc_within hm (h.resolve_left hzero) with ⟨m', hrun, hgood, hend, hcells⟩ | ⟨e, hrun⟩
    · refine .inl ⟨m', ?_, hgood, hcells⟩
      simp only [hrun, Except.map, slice_eq_window hgood hend, hcells]
    · refine .inr ⟨e, ?_⟩
      simp only [hrun, Except.map]

/-- **What a write does.** -/
theorem storeAt_cases {bytes : Bytes} (hm : m.Good)
    (h : offset + bytes.length ≤ MAX_MEMORY_SIZE ∨ USIZE ≤ offset + bytes.length + 31) :
    (∃ m', m.storeAt offset bytes = (m', .ok ()) ∧ m'.Good ∧
        cells 0 m'.data = overlay (cells 0 m.data) offset bytes) ∨
      ∃ e, m.storeAt offset bytes = (m, .error e) := by
  rw [storeAt]
  rcases realloc_within hm h with ⟨m', hrun, hgood, hend, hcells⟩ | ⟨e, hrun⟩
  · obtain ⟨hgood', hcells'⟩ := store_good hgood hend
    simp only [hrun]
    exact .inl ⟨_, rfl, hgood', hcells ▸ hcells'⟩
  · simp only [hrun]
    exact .inr ⟨e, rfl⟩

/-- **Serialising and reading back** gives the same bytes. -/
theorem save_ok (hm : m.Good) : ∃ m', m.serialize.bind deserialize = some m' ∧ m'.Good ∧
    cells 0 m'.data = cells 0 m.data := by
  have hlen : (m.data.take m.size).length = m.size := by
    rw [List.length_take, hm.length, Nat.min_eq_left hm.size_le]
  have hcap := hm.size_le.trans hm.capacity_le
  have hclog : Nat.clog 2 m.size ≤ 16 := Nat.clog_le_of_le_pow hcap
  have hpow : 2 ^ Nat.clog 2 m.size ≤ MAX_MEMORY_SIZE := Nat.pow_le_pow_right (by decide) hclog
  have hle : m.size ≤ 2 ^ Nat.clog 2 m.size := Nat.le_pow_clog (by decide) _
  refine ⟨fromBuffer (m.data.take m.size), ?_, ?_, ?_⟩
  · rw [serialize, if_pos hm.size_le, Option.bind_some, deserialize, hlen,
      if_neg (not_not.2 hm.words)]
  · simp only [fromBuffer, hlen]
    refine ⟨?_, hm.words, hle.trans (le_max_left ..), max_le hpow (by decide), fun i hi => ?_⟩
    · show (m.data.take m.size ++ List.replicate _ 0).length = max _ _
      rw [List.length_append, List.length_replicate, hlen]
      exact Nat.add_sub_of_le (hle.trans (le_max_left ..))
    · rw [cells_append_replicate, cells_take hm.blank]
      exact hm.blank i hi
  · rw [fromBuffer, cells_append_replicate]
    exact cells_take hm.blank

theorem correct_of_read {op : Op} (offset length : ℕ) (reply : Bytes → Reply) (hf : cells 0 m.data = f) (hm : m.Good)
    (hrun : op.run m = Prod.map id (Reply.of reply) (m.read offset length))
    (hanswer : op.answer f = reply (window f offset length)) (heffect : op.effect f = f)
    (hreply : ∀ bytes, (reply bytes).refused = false)
    (h : length = 0 ∨ offset + length ≤ MAX_MEMORY_SIZE ∨ USIZE ≤ offset + length + 31) :
    Correct f m op := by
  rcases read_cases hm h with ⟨m', hread, hgood, hcells⟩ | ⟨e, hread⟩
  · rw [hread] at hrun
    refine ⟨hrun ▸ hgood, fun hrefused => ?_, fun _ => ⟨?_, ?_⟩⟩
    · rw [hrun] at hrefused
      exact absurd (hreply _ ▸ hrefused) Bool.false_ne_true
    · rw [hrun, hanswer, ← hf]
      rfl
    · rw [hrun, heffect, ← hf]
      exact hcells
  · rw [hread] at hrun
    refine ⟨hrun ▸ hm, fun _ => hrun ▸ rfl, fun hcarried => ?_⟩
    rw [hrun] at hcarried
    exact absurd hcarried.symm Bool.false_ne_true

theorem correct_of_write {op : Op} (offset : ℕ) (bytes : Bytes) (hf : cells 0 m.data = f) (hm : m.Good)
    (hrun : op.run m = Prod.map id (Reply.of fun _ => .done) (m.storeAt offset bytes))
    (hanswer : op.answer f = .done) (heffect : op.effect f = overlay f offset bytes)
    (h : offset + bytes.length ≤ MAX_MEMORY_SIZE ∨ USIZE ≤ offset + bytes.length + 31) :
    Correct f m op := by
  rcases storeAt_cases hm h with ⟨m', hstore, hgood, hcells⟩ | ⟨e, hstore⟩
  · rw [hstore] at hrun
    refine ⟨hrun ▸ hgood, fun hrefused => ?_, fun _ => ⟨?_, ?_⟩⟩
    · rw [hrun] at hrefused
      exact absurd hrefused Bool.false_ne_true
    · rw [hrun, hanswer]
      rfl
    · rw [hrun, heffect, ← hf]
      exact hcells
  · rw [hstore] at hrun
    refine ⟨hrun ▸ hm, fun _ => hrun ▸ rfl, fun hcarried => ?_⟩
    rw [hrun] at hcarried
    exact absurd hcarried.symm Bool.false_ne_true

/-- A write of a part of a source. -/
theorem correct_of_writeBuffer {op : Op} {source : Bytes} {sourceOffset : ℕ}
    (hf : cells 0 m.data = f) (hm : m.Good)
    (hrun : op.run m = Prod.map id (Reply.of fun _ => .done)
      (m.writeBuffer offset length source sourceOffset))
    (hanswer : op.answer f = .done)
    (heffect : op.effect f = overlay f offset (window (cells 0 source) sourceOffset length))
    (h : length = 0 ∨ offset + length ≤ MAX_MEMORY_SIZE ∨ USIZE ≤ offset + length + 31) :
    Correct f m op := by
  by_cases hzero : length = 0
  · subst hzero
    rw [writeBuffer, if_pos rfl] at hrun
    refine ⟨hrun ▸ hm, fun _ => hrun ▸ rfl, fun _ => ⟨?_, ?_⟩⟩
    · rw [hrun, hanswer]
      rfl
    · rw [hrun, heffect]
      exact hf.trans overlay_nil.symm
  · rw [writeBuffer, if_neg hzero] at hrun
    refine correct_of_write offset _ hf hm hrun hanswer ?_ ?_
    · rw [heffect, sourceBytes_eq_window]
    · rw [sourceBytes_eq_window, length_window]
      exact h.resolve_left hzero

/-- **An operation within the limit** does what it is to do. -/
theorem correct_of_within {op : Op} (hf : cells 0 m.data = f) (hm : m.Good) (h : op.Within) :
    Correct f m op := by
  cases op with
  | read offset length =>
    exact correct_of_read offset length .bytes hf hm rfl rfl rfl (fun _ => rfl) h
  | read32 offset =>
    refine correct_of_read offset 32 (fun bytes => .word (U256.ofBytes bytes)) hf hm ?_ rfl rfl
      (fun _ => rfl) h
    rw [Op.run, read32, read, if_neg (by decide)]
    rcases m.realloc offset 32 with ⟨m', _ | _⟩
    · rfl
    · rfl
  | write32 offset value =>
    refine correct_of_write offset value.bytes hf hm rfl rfl rfl ?_
    rw [U256.bytes, length_toBeBytes]
    exact h.resolve_left (Nat.succ_ne_zero 31)
  | writeByte offset value =>
    exact correct_of_write offset [value] hf hm rfl rfl rfl
      (h.resolve_left (Nat.succ_ne_zero 0))
  | writeBuffer offset length source sourceOffset =>
    exact correct_of_writeBuffer hf hm rfl rfl rfl h
  | writeRange range source => exact correct_of_writeBuffer hf hm rfl rfl rfl h
  | readBuffer offset length =>
    refine correct_of_read offset length (fun bytes => .buffer (Buffer.fromSlice bytes)) hf hm ?_ rfl
      rfl (fun _ => rfl) h
    rw [Op.run, readBuffer]
    rcases m.read offset length with ⟨m', _ | _⟩
    · rfl
    · rfl
  | save =>
    obtain ⟨m', hsave, hgood, hcells⟩ := save_ok hm
    have hrun : Op.save.run m = (m', .done) := by
      simp only [Op.run, hsave]
    refine ⟨hrun ▸ hgood, fun hrefused => ?_, fun _ => ⟨hrun ▸ rfl, ?_⟩⟩
    · rw [hrun] at hrefused
      exact absurd hrefused Bool.false_ne_true
    · rw [hrun]
      exact hcells.trans hf

theorem storeAt_fst_of_error (bytes : Bytes) {e : Error} (h : (m.realloc offset bytes.length).2 =
    .error e) : (m.storeAt offset bytes).1 = (m.realloc offset bytes.length).1 := by
  rw [storeAt]
  rcases hrun : m.realloc offset bytes.length with ⟨m', r⟩
  rw [hrun] at h
  obtain rfl : r = .error e := h
  rfl

/-- **An operation behind the limit** leaves `size` above it. -/
theorem size_of_not_within {op : Op} (hm : m.Good) (h : ¬op.Within) :
    MAX_MEMORY_SIZE < (op.run m).1.size := by
  simp only [Op.Within, not_or, not_le] at h
  obtain ⟨hzero, hlimit, hend⟩ := h
  obtain ⟨hsize, herror⟩ := realloc_refused hm hlimit hend
  have hread : ∀ offset length, length ≠ 0 → (m.read offset length).1 =
      (m.realloc offset length).1 := by
    intro offset length hne
    rw [read, if_neg hne]
  have hwrite : ∀ {offset length source sourceOffset}, length ≠ 0 →
      (m.realloc offset length).2 = .error (.memoryAccessOutOfLimits offset length) →
      (m.writeBuffer offset length source sourceOffset).1 = (m.realloc offset length).1 := by
    intro offset length source sourceOffset hne herr
    have hlen : (window (cells 0 source) sourceOffset length).length = length := length_window
    rw [← hlen] at herr
    rw [writeBuffer, if_neg hne, sourceBytes_eq_window, storeAt_fst_of_error _ herr, hlen]
  suffices hfst : (op.run m).1 = (m.realloc op.span.1 op.span.2).1 from hfst.symm ▸ hsize
  cases op with
  | read offset length =>
    rw [Op.run, Prod.map_fst, hread offset length hzero]
    rfl
  | read32 offset =>
    rw [Op.run, Prod.map_fst, read32]
    rfl
  | write32 offset value =>
    have hlen : value.bytes.length = 32 := length_toBeBytes ..
    have herr : (m.realloc offset value.bytes.length).2 =
        .error (.memoryAccessOutOfLimits offset 32) := hlen.symm ▸ herror
    rw [Op.run, Prod.map_fst, write32, storeAt_fst_of_error _ herr, hlen]
    rfl
  | writeByte offset value =>
    rw [Op.run, Prod.map_fst, writeByte]
    exact storeAt_fst_of_error [value] herror
  | writeBuffer offset length source sourceOffset =>
    rw [Op.run, Prod.map_fst]
    exact hwrite hzero herror
  | writeRange range source =>
    rw [Op.run, Prod.map_fst, writeRange]
    exact hwrite hzero herror
  | readBuffer offset length =>
    rw [Op.run, Prod.map_fst, readBuffer]
    exact hread offset length hzero
  | save => exact absurd rfl hzero

/-! ## Runs -/

theorem after_concat (ops : List Op) (op : Op) :
    after (ops ++ [op]) = ((op.run (after ops).1).1, if (op.run (after ops).1).2.refused
      then (after ops).2 else op.effect (after ops).2) := by
  rw [after, List.foldl_append]
  rfl

theorem good_new : Good new where
  length := List.length_replicate ..
  words := rfl
  size_le := Nat.zero_le _
  capacity_le := by decide
  blank i _ := by
    show cells 0 ([] ++ List.replicate MEMORY_CAPACITY (0 : UInt8)) i = 0
    rw [cells_append_replicate]
    rfl

/-- **After operations within the limit** memory holds the bytes last written. -/
theorem after_within (ops : List Op) (h : ∀ op ∈ ops, op.Within) :
    (after ops).1.Good ∧ cells 0 (after ops).1.data = (after ops).2 := by
  induction ops using List.reverseRecOn with
  | nil =>
    refine ⟨good_new, funext fun i => ?_⟩
    exact good_new.blank i (Nat.zero_le i)
  | append_singleton ops op ih =>
    obtain ⟨hgood, hcells⟩ := ih fun op hop => h op (List.mem_append_left _ hop)
    have hop := correct_of_within hcells hgood (h op (List.mem_append_right _ List.mem_cons_self))
    rw [after_concat]
    refine ⟨hop.good, ?_⟩
    show cells 0 (op.run (after ops).1).1.data = _
    rcases hrefused : (op.run (after ops).1).2.refused with _ | _
    · exact (hop.carried hrefused).2
    · rw [hop.refused hrefused]
      exact hcells

end Memory

open Memory in
/-- **Memory refines a zero-filled array that grows** in a sequence of operations exactly if none of
them ends behind the limit and at a `usize`. -/
theorem memory_refines (ops : List Op) :
    (∀ done op rest, ops = done ++ op :: rest → Correct (after done).2 (after done).1 op) ↔
      ∀ op ∈ ops, op.Within := by
  constructor
  · intro h
    suffices hprefix : ∀ done rest, ops = done ++ rest → ∀ op ∈ done, op.Within from
      hprefix ops [] (List.append_nil _).symm
    intro done
    induction done using List.reverseRecOn with
    | nil => exact fun _ _ op hop => absurd hop List.not_mem_nil
    | append_singleton done op ih =>
      intro rest hops
      rw [List.append_assoc] at hops
      have hdone := ih _ hops
      intro op' hop'
      rcases List.mem_append.1 hop' with hop' | hop'
      · exact hdone op' hop'
      · obtain rfl := List.mem_singleton.1 hop'
        by_contra hnot
        have hgood := (h done op' rest hops).good
        have hsize := size_of_not_within (after_within done hdone).1 hnot
        exact absurd (hgood.size_le.trans hgood.capacity_le) (Nat.not_le_of_lt hsize)
  · rintro h done op rest rfl
    obtain ⟨hgood, hcells⟩ := after_within done fun op hop => h op (List.mem_append_left _ hop)
    exact correct_of_within hcells hgood (h op (List.mem_append_right _ List.mem_cons_self))

open Memory in
/-- A read of the word behind the limit: refused, and `size` is 65568. -/
theorem memory_size_raised :
    ¬∀ (ops done : List Op) (op : Op) (rest : List Op), ops = done ++ op :: rest →
      Correct (after done).2 (after done).1 op := by
  intro h
  have hcorrect := h [.read 65536 32] [] (.read 65536 32) [] rfl
  have hsame := congrArg Memory.size (hcorrect.refused (by decide +kernel))
  exact absurd hsame (by decide +kernel)

end NeonEvm
