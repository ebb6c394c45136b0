import Mathlib.Algebra.Order.BigOperators.Group.List
import Mathlib.Data.List.GetD
import NeonEvm.Evm.Eof

/-!
# Evm/EofCodec — what the container decoder accepts, it encodes again

    bytes  =  header ++ types ++ code … ++ data

The decoder reads a header and then goes by the sizes it declares.  It adds these up as `u16`s: a
header may declare a container of `2 ^ 16` bytes or more, and then the sections run past the end.
-/

namespace NeonEvm

open Exec

variable {α : Type} {b : Buffer} {i n : ℕ}

/-! ## Reading at an index -/

theorem byteAt_eq {x : UInt8} {xs l : Bytes} (h : x :: xs <+: l.drop i) : byteAt l i = pure x := by
  obtain ⟨ys, hys⟩ := h
  have hx : l[i]? = some x := by
    have := congrArg List.head? hys
    simpa [List.head?_drop] using this.symm
  rw [byteAt, hx]
  rfl

theorem prefix_drop_add {p q l : Bytes} (h : p ++ q <+: l.drop i) (hn : n = i + p.length) :
    q <+: l.drop n := by
  subst hn
  obtain ⟨r, hr⟩ := h
  rw [← List.drop_drop, ← hr, List.append_assoc, List.drop_left]
  exact List.prefix_append _ _

theorem prefix_append_drop {p q l : Bytes} (hp : p <+: l.drop i) (hq : q <+: l.drop n)
    (hn : n = i + p.length) : p ++ q <+: l.drop i := by
  subst hn
  obtain ⟨r, hr⟩ := hp
  rw [← List.drop_drop, ← hr, List.drop_left] at hq
  rw [← hr]
  exact (List.prefix_append_right_inj p).2 hq

theorem prefix_append_drop_zero {p q l : Bytes} (hp : p <+: l) (hq : q <+: l.drop n)
    (hn : n = p.length) : p ++ q <+: l := by
  simpa using prefix_append_drop (i := 0) (by simpa using hp) hq (by omega)

/-- A `u16` that is there. -/
theorem Buffer.getU16OrDefault_eq (h : toBeBytes 2 n <+: b.toList.drop i) (hn : n < U16_SIZE) :
    b.getU16OrDefault i = n := by
  have hlen := h.length_le
  rw [length_toBeBytes, List.length_drop] at hlen
  have htake : (b.toList.drop i).take 2 = toBeBytes 2 n := by
    simpa using (List.prefix_iff_eq_take.1 h).symm
  rw [getU16OrDefault, if_neg (by unfold Buffer.len; omega), htake, ofBeBytes_toBeBytes]
  exact Nat.mod_eq_of_lt hn

theorem Buffer.toBeBytes_getU16OrDefault (h : i + 2 ≤ b.len) :
    toBeBytes 2 (b.getU16OrDefault i) = (b.toList.drop i).take 2 := by
  have hlen : ((b.toList.drop i).take 2).length = 2 := by
    unfold Buffer.len at h
    simp
    omega
  rw [getU16OrDefault, if_neg (by omega)]
  simpa only [hlen] using toBeBytes_ofBeBytes ((b.toList.drop i).take 2)

theorem Buffer.getU16OrDefault_lt (b : Buffer) (i : ℕ) : b.getU16OrDefault i < U16_SIZE := by
  unfold getU16OrDefault
  split
  · decide
  · refine (ofBeBytes_lt _).trans_le ?_
    exact Nat.pow_le_pow_right (by decide) (List.length_take_le _ _)

/-- A list of `u16`s that is there. -/
theorem sizes_eq {sizes : List ℕ} (h : sizes.flatMap (toBeBytes 2) <+: b.toList.drop i)
    (hs : ∀ s ∈ sizes, s < U16_SIZE) :
    ((List.range sizes.length).map fun k => b.getU16OrDefault (i + 2 * k)) = sizes := by
  induction sizes generalizing i with
  | nil => rfl
  | cons s sizes ih =>
    rw [List.flatMap_cons] at h
    obtain ⟨hs, hsizes⟩ := List.forall_mem_cons.1 hs
    rw [List.length_cons, List.range_succ_eq_map, List.map_cons, List.map_map]
    refine congrArg₂ List.cons (Buffer.getU16OrDefault_eq ((List.prefix_append _ _).trans h) hs) ?_
    refine Eq.trans (List.map_congr_left fun k _ => ?_)
      (ih (prefix_drop_add h (by rw [length_toBeBytes])) hsizes)
    exact congrArg b.getU16OrDefault (by simp; omega)

theorem flatMap_sizes (h : i + 2 * n ≤ b.len) :
    ((List.range n).map fun k => b.getU16OrDefault (i + 2 * k)).flatMap (toBeBytes 2) =
      (b.toList.drop i).take (2 * n) := by
  induction n with
  | zero => rfl
  | succ n ih =>
    rw [List.range_succ, List.map_append, List.flatMap_append, ih (by omega), Nat.mul_succ,
      List.take_add, List.drop_drop]
    simp [Buffer.toBeBytes_getU16OrDefault (b := b) (i := i + 2 * n) (by omega)]

/-! ## Sections of the header -/

theorem SectionKind.tryFrom_toU8 (kind : SectionKind) :
    SectionKind.tryFrom kind.toU8 = pure kind := by
  cases kind <;> rfl

/-- A kind that is read is the one whose byte is there. -/
theorem SectionKind.tryFrom_run (x : UInt8) :
    (SectionKind.tryFrom x ()).Sat (fun kind _ => x = kind.toU8) (fun _ _ => True)
      fun _ => False := by
  unfold SectionKind.tryFrom
  split
  · assumption
  · split
    · assumption
    · split
      · assumption
      · trivial

theorem byteAt_run {l : Bytes} (h : i < l.length) : byteAt l i () = .ok l[i] () := by
  rw [byteAt, List.getElem?_eq_getElem h]
  rfl

theorem Section.parse_eq {kind : SectionKind} (h : kind.toU8 :: toBeBytes 2 n <+: b.toList.drop i)
    (hn : n < U16_SIZE) (hlen : i + 3 < b.len) : Section.parse b i () = .ok ⟨kind, n⟩ () := by
  have hsize : b.getU16OrDefault (i + 1) = n :=
    Buffer.getU16OrDefault_eq (prefix_drop_add (p := [kind.toU8]) h rfl) hn
  have hlen : i + SECTION_LEN < b.len := hlen
  unfold Section.parse
  rw [require_eq (decide_eq_true hlen), byteAt_eq h]
  simp [SectionKind.tryFrom_toU8, hsize]

theorem Section.parse_run (b : Buffer) (i : ℕ) :
    (Section.parse b i ()).Sat
      (fun s _ => s.kind.toU8 :: toBeBytes 2 s.size <+: b.toList.drop i ∧ s.size < U16_SIZE ∧
        i + 3 < b.len)
      (fun _ _ => True) fun _ => False := by
  refine sat_require_bind (fun _ => trivial) fun h => ?_
  have h : i + 3 < b.len := of_decide_eq_true h
  have hi : i < b.toList.length := by
    unfold Buffer.len at h
    omega
  rw [bind_run, byteAt_run hi]
  refine (SectionKind.tryFrom_run _).andThen fun kind _ hkind => ?_
  refine ⟨?_, b.getU16OrDefault_lt _, h⟩
  rw [List.drop_eq_getElem_cons hi, hkind]
  refine List.cons_prefix_cons.2 ⟨rfl, ?_⟩
  rw [Buffer.toBeBytes_getU16OrDefault (by omega)]
  exact List.take_prefix _ _

theorem SectionList.parse_eq {kind : SectionKind} {sizes : List ℕ}
    (h : kind.toU8 :: (toBeBytes 2 sizes.length ++ sizes.flatMap (toBeBytes 2)) <+:
      b.toList.drop i)
    (hn : sizes.length < U16_SIZE) (hs : ∀ s ∈ sizes, s < U16_SIZE)
    (hlen : i + 3 + 2 * sizes.length < b.len) :
    SectionList.parse b i () = .ok ⟨kind, sizes⟩ () := by
  have hlist : toBeBytes 2 sizes.length ++ sizes.flatMap (toBeBytes 2) <+: b.toList.drop (i + 1) :=
    prefix_drop_add (p := [kind.toU8]) h rfl
  have hcount : b.getU16OrDefault (i + 1) = sizes.length :=
    Buffer.getU16OrDefault_eq ((List.prefix_append _ _).trans hlist) hn
  have hsizes := sizes_eq (prefix_drop_add hlist rfl) hs
  rw [length_toBeBytes] at hsizes
  unfold SectionList.parse SectionList.parseList
  dsimp only
  rw [require_eq (decide_eq_true (by omega)), byteAt_eq h, require_eq (decide_eq_true (by omega)),
    hcount, require_eq (decide_eq_true (by omega))]
  simpa [SectionKind.tryFrom_toU8] using hsizes

theorem SectionList.parse_run (b : Buffer) (i : ℕ) :
    (SectionList.parse b i ()).Sat
      (fun l _ => l.kind.toU8 :: (toBeBytes 2 l.list.length ++ l.list.flatMap (toBeBytes 2)) <+:
        b.toList.drop i ∧ ∀ s ∈ l.list, s < U16_SIZE)
      (fun _ _ => True) fun _ => False := by
  refine sat_require_bind (fun _ => trivial) fun h => ?_
  have hi : i < b.toList.length := of_decide_eq_true h
  rw [bind_run, byteAt_run hi]
  refine (SectionKind.tryFrom_run _).andThen fun kind _ hkind => ?_
  refine Outcome.Sat.andThen (Q := fun l _ => toBeBytes 2 l.length ++ l.flatMap (toBeBytes 2) <+:
    b.toList.drop (i + 1) ∧ ∀ s ∈ l, s < U16_SIZE) ?_ fun l _ hl => ⟨?_, hl.2⟩
  · refine sat_require_bind (fun _ => trivial) fun h₁ =>
      sat_require_bind (fun _ => trivial) fun h₂ => ?_
    have h₁ : i + 1 + 2 ≤ b.len := of_decide_eq_true h₁
    have h₂ : i + 1 + 2 + b.getU16OrDefault (i + 1) * 2 < b.len := of_decide_eq_true h₂
    refine ⟨?_, ?_⟩
    · rw [List.length_map, List.length_range, Buffer.toBeBytes_getU16OrDefault h₁]
      refine prefix_append_drop (List.take_prefix _ _) (n := i + 1 + 2) ?_ ?_
      · rw [flatMap_sizes (by omega)]
        exact List.take_prefix _ _
      · unfold Buffer.len at h₁
        simp
        omega
    · intro s hs
      obtain ⟨k, -, rfl⟩ := List.mem_map.1 hs
      exact b.getU16OrDefault_lt _
  · rw [List.drop_eq_getElem_cons hi, hkind]
    exact List.cons_prefix_cons.2 ⟨rfl, hl.1⟩

/-! ## The header -/

/-- What a header declares: a size for every code section, as many signatures, and the data. -/
structure Header where
  codeSizes : List ℕ
  dataSize : ℕ

namespace Header

/-- The number of functions. -/
def count (h : Header) : ℕ := h.codeSizes.length

/-- The header as it is written. -/
def bytes (h : Header) : Bytes :=
  EOF_MAGIC ++ ([EOF1_VERSION] ++ ((SectionKind.type.toU8 :: toBeBytes 2 (h.count * 4)) ++
    ((SectionKind.code.toU8 :: (toBeBytes 2 h.count ++ h.codeSizes.flatMap (toBeBytes 2))) ++
      ((SectionKind.data.toU8 :: toBeBytes 2 h.dataSize) ++ [0]))))

/-- The size of the container that a header declares. -/
def total (h : Header) : ℕ := h.bytes.length + h.count * 4 + h.codeSizes.sum + h.dataSize

/-- The sizes are `u16`s, and there is a function, but not too many. -/
structure Fits (h : Header) : Prop where
  count_pos : 0 < h.count
  count_le : h.count ≤ 1024
  codeSizes_lt : ∀ s ∈ h.codeSizes, s < U16_SIZE
  dataSize_lt : h.dataSize < U16_SIZE

theorem length_flatMap_sizes (sizes : List ℕ) :
    (sizes.flatMap (toBeBytes 2)).length = 2 * sizes.length := by
  induction sizes with
  | nil => rfl
  | cons s sizes ih => simp [List.flatMap_cons, ih]; omega

theorem length_bytes (h : Header) : h.bytes.length = 13 + 2 * h.count := by
  simp only [bytes, List.length_append, List.length_cons, length_toBeBytes, length_flatMap_sizes,
    EOF_MAGIC, count, List.length_nil]
  omega

end Header

/-- What the decoder does behind the header. -/
def Container.readSections (b : Buffer) (h : Header) : Fallible Container := do
  require (b.len = h.total % U16_SIZE) (.invalidContainerSize b.len (h.total % U16_SIZE))
  let idx := h.bytes.length
  let types ← forEach (readSignature b idx) (List.range h.count)
  let first ← ofOption .index types[0]?
  require (first.input = 0 ∧ first.output = 0) (.invalidSection0Type first.input first.output)
  let (code, idx) ← readCode b 0 (idx + h.count * 4) h.codeSizes
  let data ← sliceOf b.toList idx (idx + h.dataSize)
  pure ⟨types, code.map Buffer.fromSlice, Buffer.fromSlice data⟩

/-- **A header that is there is read.** -/
theorem Container.unmarshalBinary_header {h : Header} (hfits : h.Fits)
    (hb : h.bytes <+: b.toList) : unmarshalBinary b () = readSections b h () := by
  have hlen := hb.length_le
  rw [h.length_bytes] at hlen
  have hlen : 13 + 2 * h.count ≤ b.len := hlen
  have hpos := hfits.count_pos
  have hle := hfits.count_le
  have h₀ : h.bytes <+: b.toList.drop 0 := hb
  have hmagic : hasEofMagic b = true := List.isPrefixOf_iff_prefix.2 ((List.prefix_append _ _).trans hb)
  have h₂ := prefix_drop_add h₀ (n := 2) rfl
  have h₃ := prefix_drop_add h₂ (n := 3) rfl
  have h₆ := prefix_drop_add h₃ (n := 6) (by simp)
  have h₉ := prefix_drop_add h₆ (n := 9 + 2 * h.count)
    (by simp [Header.count]; omega)
  have h₁₂ := prefix_drop_add h₉ (n := 9 + 2 * h.count + 3) (by simp)
  have hversion : assertEofVersion1 b = pure () := by
    obtain ⟨r, hr⟩ := (List.prefix_append _ _).trans h₂
    have : b.toList[2]? = some EOF1_VERSION := by
      have := congrArg List.head? hr
      simpa [List.head?_drop] using this.symm
    exact if_pos ⟨by omega, this⟩
  have htype : Section.parse b OFFSET_TYPES_KIND () = .ok ⟨.type, h.count * 4⟩ () :=
    Section.parse_eq ((List.prefix_append _ _).trans h₃) (by unfold U16_SIZE; omega)
      (by unfold OFFSET_TYPES_KIND; omega)
  have hcode : SectionList.parse b OFFSET_CODE_KIND () = .ok ⟨.code, h.codeSizes⟩ () :=
    SectionList.parse_eq ((List.prefix_append _ _).trans h₆)
      (show h.count < U16_SIZE by unfold U16_SIZE; omega) hfits.codeSizes_lt
      (show OFFSET_CODE_KIND + 3 + 2 * h.count < b.len by unfold OFFSET_CODE_KIND; omega)
  have hoffset : OFFSET_CODE_KIND + 2 + 2 * h.count + 1 = 9 + 2 * h.count := by
    unfold OFFSET_CODE_KIND
    omega
  have hdata : Section.parse b (9 + 2 * h.count) () = .ok ⟨.data, h.dataSize⟩ () :=
    Section.parse_eq ((List.prefix_append _ _).trans h₉) hfits.dataSize_lt (by omega)
  have hterminator : b.toList[9 + 2 * h.count + 3]? = some 0 := by
    obtain ⟨r, hr⟩ := h₁₂
    have := congrArg List.head? hr
    simpa [List.head?_drop] using this.symm
  have hsize : (9 + 2 * h.count + 3 + h.count * 4 + h.codeSizes.sum % U16_SIZE + h.dataSize + 1)
      % U16_SIZE = h.total % U16_SIZE := by
    unfold Header.total U16_SIZE
    rw [h.length_bytes]
    omega
  have hcount : h.count * 4 / 4 = h.count := Nat.mul_div_cancel _ (by decide)
  unfold unmarshalBinary readSections
  rw [require_eq hmagic, require_eq (decide_eq_true (by unfold HEADER_LEN_WITHOUT_TERMINATOR; omega)),
    hversion]
  have hdiv : 4 ≤ h.count * 4 ∧ h.count * 4 % 4 = 0 := by omega
  have hlength : h.codeSizes.length = h.count := rfl
  have hstart : h.bytes.length = 9 + 2 * h.count + 3 + 1 := by
    rw [h.length_bytes]
    omega
  simp only [bind_run, pure_run, Outcome.ok_andThen, htype, SectionKind.assert, decide_true,
    require_true, hcount, hcode, hoffset, hdata, hdiv, hle, and_self, hlength, hterminator,
    SectionList.totalSize, hsize, hstart]

/-- **What passes the checks of the header has one.** -/
theorem Container.unmarshalBinary_no_header (hb : ∀ h : Header, h.Fits → ¬h.bytes <+: b.toList) :
    ∃ e, unmarshalBinary b () = .err e () := by
  have hrun : (unmarshalBinary b ()).Sat (fun _ _ => False) (fun _ _ => True) fun _ => False := by
    refine sat_require_bind (fun _ => trivial) fun hmagic => sat_require_bind (fun _ => trivial) fun hlen => ?_
    have hmagic : EOF_MAGIC <+: b.toList := List.isPrefixOf_iff_prefix.1 hmagic
    have hlen : 14 ≤ b.toList.length := of_decide_eq_true hlen
    refine Outcome.Sat.andThen (Q := fun _ _ => [EOF1_VERSION] <+: b.toList.drop 2) ?_ fun _ _ hversion => ?_
    · unfold assertEofVersion1
      split
      · next h =>
        obtain ⟨hi, h₂⟩ := List.getElem?_eq_some_iff.1 h.2
        rw [List.drop_eq_getElem_cons hi, h₂]
        exact List.cons_prefix_cons.2 ⟨rfl, List.nil_prefix⟩
      · rw [bind_run, byteAt_run (by omega)]
        trivial
    refine (Section.parse_run b _).andThen fun ⟨kind, size⟩ _ htype => ?_
    refine sat_require_bind (fun _ => trivial) fun hkind => sat_require_bind (fun _ => trivial)
      fun hfour => sat_require_bind (fun _ => trivial) fun hmax => ?_
    obtain rfl : kind = .type := of_decide_eq_true hkind
    have hfour : 4 ≤ size ∧ size % 4 = 0 := of_decide_eq_true hfour
    have hmax : size / 4 ≤ 1024 := of_decide_eq_true hmax
    refine (SectionList.parse_run b _).andThen fun ⟨kind, sizes⟩ _ hcode => ?_
    refine sat_require_bind (fun _ => trivial) fun hkind => sat_require_bind (fun _ => trivial)
      fun hcount => ?_
    obtain rfl : kind = .code := of_decide_eq_true hkind
    have hcount : sizes.length = size / 4 := of_decide_eq_true hcount
    refine (Section.parse_run b _).andThen fun ⟨kind, dataSize⟩ _ hdata => ?_
    refine sat_require_bind (fun _ => trivial) fun hkind => ?_
    obtain rfl : kind = .data := of_decide_eq_true hkind
    cases hterminator : b.toList[OFFSET_CODE_KIND + 2 + 2 * sizes.length + 1 + 3]? with
    | none => trivial
    | some terminator =>
      refine sat_require_bind (fun _ => trivial) fun hzero => ?_
      obtain rfl : terminator = 0 := of_decide_eq_true hzero
      obtain ⟨hi, hget⟩ := List.getElem?_eq_some_iff.1 hterminator
      have hend : [0] <+: b.toList.drop (OFFSET_CODE_KIND + 2 + 2 * sizes.length + 1 + 3) := by
        rw [List.drop_eq_getElem_cons hi, hget]
        exact List.cons_prefix_cons.2 ⟨rfl, List.nil_prefix⟩
      have hsize : size = sizes.length * 4 := by omega
      refine (hb ⟨sizes, dataSize⟩ ⟨?_, ?_, hcode.2, hdata.2.1⟩ ?_).elim
      · show 0 < sizes.length
        omega
      · show sizes.length ≤ 1024
        omega
      refine prefix_append_drop_zero hmagic (prefix_append_drop hversion (prefix_append_drop
        (hsize ▸ htype.1) (prefix_append_drop hcode.1 (prefix_append_drop hdata.1 hend ?_) ?_) ?_)
        rfl) rfl
      · simp
      · simp [OFFSET_CODE_KIND]; omega
      · simp [OFFSET_CODE_KIND]
  cases h : unmarshalBinary b () with
  | err e _ => exact ⟨e, rfl⟩
  | ok c _ =>
    rw [h] at hrun
    exact hrun.elim
  | panic p =>
    rw [h] at hrun
    exact hrun.elim

/-! ## The sections -/

namespace FunctionMetadata

/-- What `assert_valid` asks of a signature. -/
def Valid (m : FunctionMetadata) : Prop :=
  m.input ≤ MAX_INPUT_ITEMS ∧ m.output ≤ MAX_OUTPUT_ITEMS ∧ m.maxStackHeight ≤ MAX_STACK_HEIGHT

theorem assertValid_run (m : FunctionMetadata) (k : UInt8) :
    (m.assertValid k ()).Sat (fun _ _ => m.Valid) (fun _ _ => ¬m.Valid) fun _ => False := by
  refine sat_require_bind (fun h hv => ?_) fun h₁ => sat_require_bind (fun h hv => ?_) fun h₂ => ?_
  · simp [hv.1] at h
  · simp [hv.2.1] at h
  · unfold require
    split
    · next h₃ => exact ⟨of_decide_eq_true h₁, of_decide_eq_true h₂, of_decide_eq_true h₃⟩
    · next h₃ => exact fun hv => h₃ (decide_eq_true hv.2.2)

theorem toBytes_eq (m : FunctionMetadata) :
    m.toBytes = [m.input, m.output] ++ toBeBytes 2 m.maxStackHeight := by
  have hhigh : m.maxStackHeight >>> 8 = m.maxStackHeight / 256 := Nat.shiftRight_eq_div_pow _ _
  have hlow : m.maxStackHeight &&& 0xff = m.maxStackHeight % 256 :=
    Nat.and_two_pow_sub_one_eq_mod _ 8
  have hmod : UInt8.ofNat (m.maxStackHeight % 256) = UInt8.ofNat m.maxStackHeight :=
    UInt8.toNat_inj.1 (by simp)
  simp [toBytes, hhigh, hlow, hmod, toBeBytes]

@[simp] theorem length_toBytes (m : FunctionMetadata) : m.toBytes.length = 4 := rfl

end FunctionMetadata

/-- The signature at an index, as far as it is there. -/
def signatureAt (b : Buffer) (i : ℕ) : FunctionMetadata :=
  ⟨b.getOrDefault i, b.getOrDefault (i + 1), b.getU16OrDefault (i + 2)⟩

theorem toBytes_signatureAt (h : i + 4 ≤ b.len) :
    (signatureAt b i).toBytes = (b.toList.drop i).take 4 := by
  have hlen : i + 4 ≤ b.toList.length := h
  rw [FunctionMetadata.toBytes_eq]
  simp only [signatureAt, Buffer.getOrDefault]
  rw [Buffer.toBeBytes_getU16OrDefault (by omega), List.drop_eq_getElem_cons (by omega : i < _),
    List.drop_eq_getElem_cons (by omega : i + 1 < _),
    List.getD_eq_getElem _ _ (by omega), List.getD_eq_getElem _ _ (by omega)]
  rfl

theorem signatureAt_eq {m : FunctionMetadata} (h : m.toBytes <+: b.toList.drop i)
    (hm : m.maxStackHeight < U16_SIZE) : signatureAt b i = m := by
  have hget {x : UInt8} {xs : Bytes} {k : ℕ} (hx : x :: xs <+: b.toList.drop k) :
      b.getOrDefault k = x := by
    obtain ⟨ys, hys⟩ := hx
    have := congrArg List.head? hys
    rw [List.head?_drop] at this
    simp [Buffer.getOrDefault, ← this]
  rw [FunctionMetadata.toBytes_eq] at h
  have h₁ := prefix_drop_add (p := [m.input]) (n := i + 1) h rfl
  have h₂ : toBeBytes 2 m.maxStackHeight <+: b.toList.drop (i + 2) :=
    prefix_drop_add (p := [m.output]) (n := i + 2) h₁ rfl
  simp only [signatureAt, hget h, hget h₁, Buffer.getU16OrDefault_eq h₂ hm]

theorem readSignature_run (b : Buffer) (i k : ℕ) :
    (Container.readSignature b i k ()).Sat
      (fun m _ => m = signatureAt b (i + k * 4) ∧ m.Valid ∧ i + k * 4 + 2 ≤ b.len)
      (fun _ _ => ¬(signatureAt b (i + k * 4)).Valid ∧ i + k * 4 + 2 ≤ b.len)
      fun _ => b.len < i + k * 4 + 2 := by
  unfold Container.readSignature Buffer.len
  by_cases h₁ : i + k * 4 + 1 < b.toList.length
  · have h₀ : i + k * 4 < b.toList.length := by omega
    have hm : signatureAt b (i + k * 4) =
        ⟨b.toList[i + k * 4], b.toList[i + k * 4 + 1], b.getU16OrDefault (i + k * 4 + 2)⟩ := by
      simp [signatureAt, Buffer.getOrDefault, List.getElem?_eq_getElem h₀,
        List.getElem?_eq_getElem h₁]
    simp only [bind_run, byteAt_run h₀, byteAt_run h₁, Outcome.ok_andThen]
    rw [hm]
    refine Outcome.Sat.andThen ((FunctionMetadata.assertValid_run _ _).imp (fun _ _ h => h)
      (fun _ _ h => ⟨h, h₁⟩) fun _ h => h.elim) fun _ _ h => ⟨rfl, h, h₁⟩
  · have hnone : byteAt b.toList (i + k * 4 + 1) () = .panic .index := by
      rw [byteAt, List.getElem?_eq_none (by omega)]
      rfl
    by_cases h₀ : i + k * 4 < b.toList.length
    · simp only [bind_run, byteAt_run h₀, Outcome.ok_andThen, hnone, Outcome.panic_andThen]
      exact Nat.lt_of_not_le (by omega)
    · rw [bind_run, byteAt, List.getElem?_eq_none (by omega)]
      exact Nat.lt_of_not_le (by omega)

/-- **Reading the signatures** stops at the first that is invalid, and aborts at the first that is
missing. -/
theorem signatures_run (b : Buffer) (i k n : ℕ) :
    (forEach (Container.readSignature b i) (List.range' k n) ()).Sat
      (fun ms _ => ms = (List.range' k n).map (fun j => signatureAt b (i + j * 4)) ∧
        ∀ j ∈ List.range' k n, i + j * 4 + 2 ≤ b.len ∧ (signatureAt b (i + j * 4)).Valid)
      (fun _ _ => ∃ j ∈ List.range' k n, i + j * 4 + 2 ≤ b.len ∧
        ¬(signatureAt b (i + j * 4)).Valid)
      fun _ => ∃ j ∈ List.range' k n, b.len < i + j * 4 + 2 ∧
        ∀ l ∈ List.range' k n, l < j → (signatureAt b (i + l * 4)).Valid := by
  induction n generalizing k with
  | zero => exact ⟨rfl, by simp⟩
  | succ n ih =>
    have hself : k ∈ List.range' k (n + 1) := by simp
    have htail {j : ℕ} (hj : j ∈ List.range' (k + 1) n) : j ∈ List.range' k (n + 1) := by
      rw [List.range'_succ]
      exact List.mem_cons_of_mem _ hj
    refine Outcome.Sat.andThen ((readSignature_run b i k).imp (fun _ _ h => h)
      (fun _ _ h => ⟨k, hself, h.2, h.1⟩) fun _ h => ⟨k, hself, h, ?_⟩) fun m _ hm => ?_
    · intro l hl hlt
      rw [List.mem_range'_1] at hl
      omega
    · refine Outcome.Sat.andThen ((ih (k + 1)).imp (fun _ _ h => h) (fun _ _ h => ?_)
        fun _ h => ?_) fun ms _ hms => ?_
      · obtain ⟨j, hj, h⟩ := h
        exact ⟨j, htail hj, h⟩
      · obtain ⟨j, hj, hlt, hvalid⟩ := h
        refine ⟨j, htail hj, hlt, fun l hl hlj => ?_⟩
        rw [List.range'_succ] at hl
        rcases List.mem_cons.1 hl with rfl | hl
        · exact hm.1 ▸ hm.2.1
        · exact hvalid l hl hlj
      · rw [List.range'_succ]
        refine ⟨by rw [List.map_cons, ← hm.1, ← hms.1], ?_⟩
        exact List.forall_mem_cons.2 ⟨⟨hm.2.2, hm.1 ▸ hm.2.1⟩, hms.2⟩

/-- **Reading the code** stops at the first section without any, and aborts at the first that is not
all there. -/
theorem readCode_run (b : Buffer) (k i : ℕ) (sizes : List ℕ) :
    (Container.readCode b k i sizes ()).Sat
      (fun (codes, stop) _ => stop = i + sizes.sum ∧ codes.map List.length = sizes ∧
        codes.flatten <+: b.toList.drop i ∧ ∀ s ∈ sizes, s ≠ 0)
      (fun _ _ => ∃ j, sizes[j]? = some 0 ∧ (j = 0 ∨ i + (sizes.take j).sum ≤ b.len))
      fun _ => ∃ j, b.len < i + (sizes.take (j + 1)).sum ∧ ∀ l ≤ j, sizes[l]? ≠ some 0 := by
  induction sizes generalizing k i with
  | nil => exact ⟨rfl, rfl, List.nil_prefix, by simp⟩
  | cons size sizes ih =>
    refine sat_require_bind (fun h => ⟨0, by simpa using h, .inl rfl⟩) fun h => ?_
    have hsize : size ≠ 0 := of_decide_eq_true h
    by_cases hfit : i + size ≤ b.toList.length
    · have hslice : sliceOf b.toList i (i + size) () =
          .ok ((b.toList.drop i).take size) () := by
        rw [sliceOf, if_pos ⟨Nat.le_add_right _ _, hfit⟩, Nat.add_sub_cancel_left]
        rfl
      rw [bind_run, hslice, Outcome.ok_andThen]
      refine Outcome.Sat.andThen ((ih (k + 1) (i + size)).imp (fun _ _ h => h) (fun _ _ h => ?_)
        fun _ h => ?_) fun ⟨codes, stop⟩ _ hcodes => ?_
      · obtain ⟨j, hj, h⟩ := h
        refine ⟨j + 1, hj, .inr ?_⟩
        rcases h with rfl | h
        · simpa [Buffer.len] using hfit
        · simpa [Nat.add_assoc] using h
      · obtain ⟨j, hlt, hne⟩ := h
        refine ⟨j + 1, by simpa [Nat.add_assoc] using hlt, fun l hl => ?_⟩
        cases l with
        | zero => simpa using hsize
        | succ l => simpa using hne l (by omega)
      · obtain ⟨hstop, hlengths, hprefix, hne⟩ := hcodes
        have hlen : ((b.toList.drop i).take size).length = size := by
          simp
          omega
        refine ⟨?_, ?_, ?_, List.forall_mem_cons.2 ⟨hsize, hne⟩⟩
        · simp [hstop, Nat.add_assoc]
        · rw [List.map_cons, hlen, hlengths]
        · exact prefix_append_drop (List.take_prefix _ _) hprefix (by rw [hlen])
    · have hslice : sliceOf b.toList i (i + size) () = .panic .index := by
        rw [sliceOf, if_neg fun h => hfit h.2]
        rfl
      rw [bind_run, hslice]
      refine ⟨0, ?_, fun l hl => ?_⟩
      · simpa [Buffer.len] using Nat.lt_of_not_le hfit
      · obtain rfl : l = 0 := by omega
        simpa using hsize

/-- **A fault that the decoder finds** in the bytes that are there, whatever else is missing. -/
inductive Header.Fault (h : Header) (b : Buffer) : Prop
  /-- A signature is beyond its limits. -/
  | signature (j : ℕ) (hj : j < h.count) (hread : h.bytes.length + j * 4 + 2 ≤ b.len)
      (hbad : ¬(signatureAt b (h.bytes.length + j * 4)).Valid)
  /-- The first function takes inputs, or has outputs. -/
  | first (hread : h.bytes.length + (h.count - 1) * 4 + 2 ≤ b.len)
      (hbad : ¬((signatureAt b h.bytes.length).input = 0 ∧ (signatureAt b h.bytes.length).output = 0))
  /-- A section of no code is declared. -/
  | code (j : ℕ) (hread : h.bytes.length + (h.count - 1) * 4 + 2 ≤ b.len)
      (hsize : h.codeSizes[j]? = some 0)
      (hfit : j = 0 ∨ h.bytes.length + h.count * 4 + (h.codeSizes.take j).sum ≤ b.len)

/-- What a decoded container is made of. -/
structure Header.Decoded (h : Header) (b : Buffer) (c : Container) : Prop where
  len : b.len = h.total
  small : h.total < U16_SIZE
  types : c.types = (List.range h.count).map fun j => signatureAt b (h.bytes.length + j * 4)
  valid : ∀ m ∈ c.types, m.Valid
  code : c.code.map Buffer.len = h.codeSizes
  bytes : c.code.flatMap Buffer.toList ++ c.data.toList =
    b.toList.drop (h.bytes.length + h.count * 4)

theorem flatten_toList (codes : List Bytes) :
    (codes.map Buffer.fromSlice).flatMap Buffer.toList = codes.flatten := by
  simp [List.flatMap, Function.comp_def]

/-- **Behind a header that fits**: a container of the length declared, a fault, or the end of the
bytes where more are declared. -/
theorem Container.readSections_run {h : Header} (hfits : h.Fits) (b : Buffer) :
    (readSections b h ()).Sat (fun c _ => h.Decoded b c)
      (fun _ _ => b.len ≠ h.total % U16_SIZE ∨ h.Fault b)
      fun _ => b.len = h.total % U16_SIZE ∧ b.len < h.total ∧ ¬h.Fault b := by
  have hpos := hfits.count_pos
  have htotal : h.total = h.bytes.length + h.count * 4 + h.codeSizes.sum + h.dataSize := rfl
  refine sat_require_bind (fun h => .inl (of_decide_eq_false h)) fun hlen => ?_
  have hlen : b.len = h.total % U16_SIZE := of_decide_eq_true hlen
  have hle : b.len ≤ h.total := hlen ▸ Nat.mod_le _ _
  have hrange : List.range h.count = List.range' 0 h.count := List.range_eq_range'
  dsimp only
  rw [hrange]
  refine Outcome.Sat.andThen ((signatures_run b h.bytes.length 0 h.count).imp (fun _ _ h => h)
    (fun _ _ hs => ?_) fun _ hs => ?_) fun types _ htypes => ?_
  · obtain ⟨j, hj, hread, hbad⟩ := hs
    exact .inr (.signature j (by simpa using hj) hread hbad)
  · obtain ⟨j, hj, hlt, hvalid⟩ := hs
    have hj : j < h.count := by simpa using hj
    refine ⟨hlen, by omega, fun hfault => ?_⟩
    cases hfault with
    | signature l hl hread hbad => exact hbad (hvalid l (by simpa using hl) (by omega))
    | first hread => omega
    | code l hread => omega
  obtain ⟨rfl, hvalid⟩ := htypes
  have hread : ∀ j < h.count, h.bytes.length + j * 4 + 2 ≤ b.len ∧
      (signatureAt b (h.bytes.length + j * 4)).Valid := fun j hj => hvalid j (by simpa using hj)
  have hfirst : ((List.range' 0 h.count).map fun j =>
      signatureAt b (h.bytes.length + j * 4))[0]? = some (signatureAt b h.bytes.length) := by
    simp [← hrange, hpos]
  rw [hfirst]
  refine sat_require_bind (fun hbad => ?_) fun hzero => ?_
  · exact .inr (.first (hread _ (by omega)).1 (of_decide_eq_false hbad))
  have hzero := of_decide_eq_true hzero
  have no_fault (hcode : ∀ j, h.codeSizes[j]? = some 0 → j ≠ 0 ∧
      b.len < h.bytes.length + h.count * 4 + (h.codeSizes.take j).sum) : ¬h.Fault b := by
    intro hfault
    cases hfault with
    | signature l hl hread' hbad => exact hbad (hread l hl).2
    | first hread' hbad => exact hbad hzero
    | code j hread' hsize hfit =>
      obtain ⟨hj, hlt⟩ := hcode j hsize
      exact hfit.elim hj (by omega)
  refine Outcome.Sat.andThen ((readCode_run b 0 (h.bytes.length + h.count * 4) h.codeSizes).imp
    (fun _ _ h => h) (fun _ _ hc => ?_) fun _ hc => ?_) fun ⟨codes, stop⟩ _ hcodes => ?_
  · obtain ⟨j, hsize, hfit⟩ := hc
    exact .inr (.code j (hread _ (by omega)).1 hsize hfit)
  · obtain ⟨j, hlt, hne⟩ := hc
    have hmono (l : ℕ) (hl : j < l) :
        (h.codeSizes.take (j + 1)).sum ≤ (h.codeSizes.take l).sum :=
      List.monotone_sum_take h.codeSizes hl
    have hall : (h.codeSizes.take (j + 1)).sum ≤ h.codeSizes.sum := by
      rw [← List.sum_take_add_sum_drop h.codeSizes (j + 1)]
      exact Nat.le_add_right _ _
    refine ⟨hlen, by omega, no_fault fun l hsize => ?_⟩
    have hl : j < l := Nat.lt_of_not_le fun hle => hne l hle hsize
    exact ⟨by omega, lt_of_lt_of_le hlt (Nat.add_le_add_left (hmono l hl) _)⟩
  · obtain ⟨rfl, hlengths, hprefix, hne⟩ := hcodes
    dsimp only at hlengths hprefix ⊢
    by_cases hfit : h.bytes.length + h.count * 4 + h.codeSizes.sum + h.dataSize ≤ b.toList.length
    · have hslice : sliceOf b.toList (h.bytes.length + h.count * 4 + h.codeSizes.sum)
          (h.bytes.length + h.count * 4 + h.codeSizes.sum + h.dataSize) () =
          .ok ((b.toList.drop (h.bytes.length + h.count * 4 + h.codeSizes.sum)).take
            h.dataSize) () := by
        rw [sliceOf, if_pos ⟨Nat.le_add_right _ _, hfit⟩, Nat.add_sub_cancel_left]
        rfl
      have htotal' : b.len = h.total := hle.antisymm hfit
      have hflat : codes.flatten.length = h.codeSizes.sum := by rw [List.length_flatten, hlengths]
      rw [bind_run, hslice]
      have hsmall : h.total < U16_SIZE := by
        rw [← htotal', hlen]
        exact Nat.mod_lt _ (by decide)
      refine ⟨htotal', hsmall, by rw [hrange], ?_, ?_, ?_⟩
      · intro m hm
        obtain ⟨j, hj, rfl⟩ := List.mem_map.1 hm
        exact (hvalid j hj).2
      · rw [List.map_map, ← hlengths]
        exact List.map_congr_left fun code _ => by simp [Buffer.len]
      · rw [flatten_toList, Buffer.toList_fromSlice]
        obtain ⟨rest, hrest⟩ := hprefix
        have hdrop : b.toList.drop (h.bytes.length + h.count * 4 + h.codeSizes.sum) = rest := by
          rw [← List.drop_drop, ← hrest, ← hflat, List.drop_left]
        rw [hdrop, ← hrest]
        have hrestlen : rest.length = h.dataSize := by
          rw [← hdrop, List.length_drop]
          show b.len - _ = _
          omega
        rw [List.take_of_length_le hrestlen.le]
    · have hslice : sliceOf b.toList (h.bytes.length + h.count * 4 + h.codeSizes.sum)
          (h.bytes.length + h.count * 4 + h.codeSizes.sum + h.dataSize) () = .panic .index := by
        rw [sliceOf, if_neg fun h => hfit h.2]
        rfl
      rw [bind_run, hslice]
      refine ⟨hlen, Nat.lt_of_not_le hfit, no_fault fun j hsize => ?_⟩
      exact (hne 0 (List.mem_of_getElem? hsize) rfl).elim

/-! ## Encoding -/

namespace Container

variable {c c' : Container} {h : Header}

/-- The header that a container is written with. -/
def header (c : Container) : Header := ⟨c.code.map Buffer.len, c.data.len⟩

/-- The size of a container: its header and its sections. -/
def size (c : Container) : ℕ :=
  13 + 2 * c.code.length + 4 * c.types.length + (c.code.map Buffer.len).sum + c.data.len

theorem length_flatMap_toBytes (types : List FunctionMetadata) :
    (types.flatMap FunctionMetadata.toBytes).length = 4 * types.length := by
  induction types with
  | nil => rfl
  | cons m types ih =>
    rw [List.flatMap_cons, List.length_append, ih, FunctionMetadata.length_toBytes,
      List.length_cons]
    omega

theorem length_flatMap_toList (code : List Buffer) :
    (code.flatMap Buffer.toList).length = (code.map Buffer.len).sum := by
  induction code with
  | nil => rfl
  | cons s code ih => simp [List.flatMap_cons, ih, Buffer.len]

theorem toList_marshalBinary (hlen : c.types.length = c.code.length) :
    c.marshalBinary.toList = c.header.bytes ++ (c.types.flatMap FunctionMetadata.toBytes ++
      (c.code.flatMap Buffer.toList ++ c.data.toList)) := by
  simp [marshalBinary, header, Header.bytes, Header.count, hlen, List.flatMap_map]

theorem size_eq (hlen : c.types.length = c.code.length) : c.size = c.header.total := by
  simp only [size, Header.total, Header.length_bytes, Header.count, header, List.length_map, hlen]
  omega

theorem len_marshalBinary (hlen : c.types.length = c.code.length) :
    c.marshalBinary.len = c.size := by
  rw [Buffer.len, toList_marshalBinary hlen]
  simp only [List.length_append, Header.length_bytes, length_flatMap_toBytes,
    length_flatMap_toList, size, Header.count, header, List.length_map, Buffer.len]
  omega

/-- A run of signatures. -/
theorem flatMap_signatures (h : i + n * 4 ≤ b.len) :
    ((List.range n).map fun j => signatureAt b (i + j * 4)).flatMap FunctionMetadata.toBytes =
      (b.toList.drop i).take (n * 4) := by
  induction n with
  | zero => simp
  | succ n ih =>
    rw [List.range_succ, List.map_append, List.flatMap_append, ih (by omega), Nat.succ_mul,
      List.take_add, List.drop_drop]
    simp [toBytes_signatureAt (b := b) (i := i + n * 4) (by omega)]

end Container

/-- A container that has been decoded is written with the header that was read. -/
theorem Header.Decoded.header_eq {h : Header} {c : Container} (hc : h.Decoded b c) :
    c.header = h := by
  have hbytes := congrArg List.length hc.bytes
  rw [List.length_append, Container.length_flatMap_toList, hc.code, List.length_drop] at hbytes
  have hlen : b.toList.length = _ := hc.len
  have hdata : c.data.toList.length = h.dataSize := by
    rw [hlen] at hbytes
    unfold Header.total at hbytes
    omega
  rw [Container.header, hc.code, Buffer.len, hdata]

theorem Header.Decoded.types_length {h : Header} {c : Container} (hc : h.Decoded b c) :
    c.types.length = c.code.length := by
  have hcode := congrArg List.length hc.code
  rw [List.length_map] at hcode
  simp [hc.types, hcode, Header.count]

/-- **What is decoded is encoded again.** -/
theorem Header.Decoded.marshalBinary_eq {h : Header} {c : Container} (hc : h.Decoded b c)
    (hb : h.bytes <+: b.toList) : c.size = b.len ∧ c.marshalBinary.toList = b.toList := by
  have hlen := hc.types_length
  refine ⟨by rw [Container.size_eq hlen, hc.header_eq, hc.len], ?_⟩
  have hfit : h.bytes.length + h.count * 4 ≤ b.len := by
    rw [hc.len]
    unfold Header.total
    omega
  rw [Container.toList_marshalBinary hlen, hc.header_eq, hc.bytes, hc.types,
    Container.flatMap_signatures hfit, ← List.drop_drop, List.take_append_drop]
  obtain ⟨rest, hrest⟩ := hb
  rw [← hrest, List.drop_left]

/-! ## Exactness -/

namespace Container

variable {c c' : Container}

/-- **Total and exact** on `b`: the decoder does not abort, and what it accepts it would have
written. -/
def DecodesExactly (b : Buffer) : Prop :=
  (unmarshalBinary b ()).Sat (fun c _ => c.size = b.len ∧ c.marshalBinary.toList = b.toList)
    (fun _ _ => True) fun _ => False

/-- `b` has a header that declares `2 ^ 16` bytes or more, so many that the `u16` sum is its length,
and no fault is found in it before it ends. -/
def Overdeclared (b : Buffer) : Prop :=
  ∃ h : Header, h.Fits ∧ h.bytes <+: b.toList ∧
    b.len < h.total ∧ b.len = h.total % U16_SIZE ∧ ¬h.Fault b

theorem decodesExactly_iff (b : Buffer) : DecodesExactly b ↔ ¬Overdeclared b := by
  unfold DecodesExactly
  constructor
  · rintro hexact ⟨h, hfits, hb, hlt, hlen, hfault⟩
    rw [unmarshalBinary_header hfits hb] at hexact
    have hrun := readSections_run hfits b
    cases hr : readSections b h () with
    | ok c _ =>
      rw [hr] at hrun
      exact hlt.ne hrun.len
    | err e _ =>
      rw [hr] at hrun
      exact hrun.elim (fun hne => hne hlen) hfault
    | panic p =>
      rw [hr] at hexact
      exact hexact
  · intro hover
    by_cases hheader : ∃ h : Header, h.Fits ∧ h.bytes <+: b.toList
    · obtain ⟨h, hfits, hb⟩ := hheader
      rw [unmarshalBinary_header hfits hb]
      refine (readSections_run hfits b).imp (fun c _ hc => hc.marshalBinary_eq hb)
        (fun _ _ _ => trivial) fun _ hp => ?_
      exact hover ⟨h, hfits, hb, hp.2.1, hp.1, hp.2.2⟩
    · obtain ⟨e, he⟩ := unmarshalBinary_no_header (b := b) fun h hfits hb =>
        hheader ⟨h, hfits, hb⟩
      rw [he]
      trivial

/-- The limits that the decoder checks, and sizes that fit their `u16`s. -/
structure WithinLimits (c : Container) : Prop where
  types_length : c.types.length = c.code.length
  count_pos : 0 < c.code.length
  count_le : c.code.length ≤ 1024
  valid : ∀ m ∈ c.types, m.Valid
  first : ∀ m, c.types[0]? = some m → m.input = 0 ∧ m.output = 0
  code : ∀ s ∈ c.code, 0 < s.len ∧ s.len < U16_SIZE
  data : c.data.len < U16_SIZE

theorem WithinLimits.fits (hc : c.WithinLimits) : c.header.Fits where
  count_pos := by simpa [Header.count, header] using hc.count_pos
  count_le := by simpa [Header.count, header] using hc.count_le
  codeSizes_lt := by simpa [header] using fun s hs => (hc.code s hs).2
  dataSize_lt := hc.data

/-- The signature of a function, found in the encoding. -/
theorem WithinLimits.signatureAt_eq (hc : c.WithinLimits) {j : ℕ} {m : FunctionMetadata}
    (hm : c.types[j]? = some m) :
    signatureAt c.marshalBinary (c.header.bytes.length + j * 4) = m := by
  have hprefix {types : List FunctionMetadata} {j : ℕ} {m : FunctionMetadata}
      (hm : types[j]? = some m) :
      m.toBytes <+: (types.flatMap FunctionMetadata.toBytes).drop (j * 4) := by
    induction types generalizing j with
    | nil => simp at hm
    | cons m' types ih =>
      rw [List.flatMap_cons]
      cases j with
      | zero =>
        obtain rfl : m' = m := by simpa using hm
        simp
      | succ j =>
        have := ih (j := j) (by simpa using hm)
        rwa [Nat.succ_mul, Nat.add_comm, ← List.drop_drop,
          List.drop_left' m'.length_toBytes]
  have hvalid := hc.valid m (List.mem_of_getElem? hm)
  refine NeonEvm.signatureAt_eq ?_ (hvalid.2.2.trans_lt (by decide))
  obtain ⟨rest, hrest⟩ := hprefix hm
  rw [toList_marshalBinary hc.types_length, ← List.drop_drop, List.drop_left]
  have hj : j * 4 ≤ (c.types.flatMap FunctionMetadata.toBytes).length := by
    rw [length_flatMap_toBytes]
    have := (List.getElem?_eq_some_iff.1 hm).1
    omega
  rw [List.drop_append_of_le_length hj, ← hrest]
  rw [List.append_assoc]
  exact List.prefix_append _ _

theorem WithinLimits.no_fault (hc : c.WithinLimits) : ¬c.header.Fault c.marshalBinary := by
  have hcount : c.header.count = c.types.length := by
    simp [Header.count, header, hc.types_length]
  intro hfault
  cases hfault with
  | signature j hj hread hbad =>
    rw [hcount] at hj
    have hm := List.getElem?_eq_getElem hj
    exact hbad (hc.signatureAt_eq hm ▸ hc.valid _ (List.mem_of_getElem? hm))
  | first hread hbad =>
    have hpos : 0 < c.types.length := by
      rw [hc.types_length]
      exact hc.count_pos
    have hm := List.getElem?_eq_getElem hpos
    have hat := hc.signatureAt_eq hm
    simp only [Nat.zero_mul, Nat.add_zero] at hat
    exact hbad (hat ▸ hc.first _ hm)
  | code j hread hsize =>
    have hmem := List.mem_of_getElem? hsize
    obtain ⟨s, hs, hzero⟩ := List.mem_map.1 hmem
    exact (hc.code s hs).1.ne' hzero

/-- Two lists of buffers of the same sizes and the same bytes. -/
theorem map_toList_eq {code code' : List Buffer} (hlen : code.map Buffer.len = code'.map Buffer.len)
    (hbytes : code.flatMap Buffer.toList = code'.flatMap Buffer.toList) :
    code.map Buffer.toList = code'.map Buffer.toList := by
  refine List.eq_iff_flatten_eq.2 ⟨hbytes, ?_⟩
  rw [List.map_map, List.map_map]
  exact hlen

/-- The encoding of `c` is decoded, and gives `c` back. -/
def Recovered (c : Container) : Prop :=
  ∃ c', unmarshalBinary c.marshalBinary () = .ok c' () ∧ c'.Same c

theorem WithinLimits.recovered_iff (hc : c.WithinLimits) : c.Recovered ↔ c.size < U16_SIZE := by
  have hb : c.header.bytes <+: c.marshalBinary.toList := by
    rw [toList_marshalBinary hc.types_length]
    exact List.prefix_append _ _
  have hlen : c.marshalBinary.len = c.header.total := by
    rw [len_marshalBinary hc.types_length, size_eq hc.types_length]
  have hrun := readSections_run hc.fits c.marshalBinary
  unfold Recovered
  rw [unmarshalBinary_header hc.fits hb, size_eq hc.types_length]
  constructor
  · rintro ⟨c', hok, -⟩
    rw [hok] at hrun
    exact hrun.small
  · intro hsmall
    cases hr : readSections c.marshalBinary c.header () with
    | err e _ =>
      rw [hr] at hrun
      refine (hrun.elim (fun hne => hne ?_) hc.no_fault).elim
      rw [hlen, Nat.mod_eq_of_lt hsmall]
    | panic p =>
      rw [hr] at hrun
      exact (hrun.2.1.ne hlen).elim
    | ok c' _ =>
      rw [hr] at hrun
      have hlens : c'.code.map Buffer.len = c.code.map Buffer.len := hrun.code
      have hbytes := hrun.bytes
      have hstart : c.header.bytes.length + c.header.count * 4 =
          (c.header.bytes ++ c.types.flatMap FunctionMetadata.toBytes).length := by
        rw [List.length_append, length_flatMap_toBytes, hc.types_length]
        simp [Header.count, header, Nat.mul_comm]
      rw [toList_marshalBinary hc.types_length, ← List.append_assoc, hstart,
        List.drop_left] at hbytes
      obtain ⟨hcode, hdata⟩ := List.append_inj hbytes (by
        rw [length_flatMap_toList, length_flatMap_toList, hlens])
      refine ⟨c', rfl, ?_, map_toList_eq hlens hcode, hdata⟩
      refine hrun.types.trans (List.ext_getElem? fun j => ?_)
      have hcount : c.header.count = c.types.length := by
        simp [Header.count, header, hc.types_length]
      rw [List.getElem?_map]
      by_cases hj : j < c.types.length
      · rw [List.getElem?_range (hcount ▸ hj), Option.map_some, List.getElem?_eq_getElem hj]
        exact congrArg some (hc.signatureAt_eq (List.getElem?_eq_getElem hj))
      · rw [List.getElem?_eq_none (by simpa [hcount] using hj), List.getElem?_eq_none (by omega)]
        rfl

/-- A header that declares 65535 bytes of code and one of data, and a signature behind it. -/
def overdeclaredBytes : Bytes :=
  [0xEF, 0x00, 0x01, 0x01, 0x00, 0x04, 0x02, 0x00, 0x01, 0xFF, 0xFF, 0x03, 0x00, 0x01, 0x00,
    0x00, 0x00, 0x00, 0x00]

/-- **The decoder aborts** on these: the `u16` sum of their sizes is 19. -/
theorem decoding_aborts : ¬∀ b, DecodesExactly b := fun h =>
  h (Buffer.fromSlice overdeclaredBytes)

/-- **The decoder is total and exact** but on bytes whose header declares `2 ^ 16` bytes more than
there are; and it reads back every container within its limits that is shorter than that. -/
theorem decoding_total_and_exact (b : Buffer) (c : Container) (hc : c.WithinLimits) :
    (DecodesExactly b ↔ ¬Overdeclared b) ∧ (c.Recovered ↔ c.size < U16_SIZE) :=
  ⟨decodesExactly_iff b, hc.recovered_iff⟩

/-- A container of one function and three bytes of data. -/
def smallContainer : Container where
  types := [⟨0, 0, 1⟩]
  code := [.fromSlice [0x60, 0x42, 0x00]]
  data := .fromSlice [0x01, 0x02, 0x03]

/-- It is read back. -/
theorem decoding_total_and_exact_small : smallContainer.WithinLimits ∧ smallContainer.Recovered := by
  have hlimits : smallContainer.WithinLimits := {
    types_length := rfl
    count_pos := by decide
    count_le := by decide
    valid := by
      intro m hm
      obtain rfl : m = ⟨0, 0, 1⟩ := by simpa [smallContainer] using hm
      exact ⟨by decide, by decide, by decide⟩
    first := by
      intro m hm
      obtain rfl : ⟨0, 0, 1⟩ = m := by simpa [smallContainer] using hm
      exact ⟨rfl, rfl⟩
    code := by decide
    data := by decide }
  exact ⟨hlimits, (decoding_total_and_exact .empty smallContainer hlimits).2.2 (by decide)⟩

end Container

end NeonEvm
