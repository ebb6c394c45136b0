import NeonEvm.Evm.JumpTable
import NeonEvm.Lib.Flow

/-!
# Evm/FlowTyping — the stack heights of a section

    position ↦ height        entry: the section's inputs        along an edge: the opcode's effect

The walk of the validator over the control flow of a section (`walk`) computes the one assignment of
heights that there can be, and fails exactly if there is none.
-/

namespace NeonEvm

open Exec

namespace Container

open opcode OpcodeInfo

/-! ## The flow of a section -/

/-- The destinations of the jumps of the instruction at `p`. -/
def jumpDests (code : Buffer) (p : ℕ) : List ℕ :=
  let op := code.getOrDefault p
  if op = RJUMP ∨ op = RJUMPI then [relativeTarget code p]
  else if op = RJUMPV then (List.range (tableCount code p)).map (tableTarget code p)
  else []

/-- Where control goes from `p`: to the next instruction, unless the one at `p` is terminal, and to
the destinations of its jumps. -/
def nextPositions (code : Buffer) (p : ℕ) : List ℕ :=
  (if isTerminalOpcode (code.getOrDefault p) then [] else [p + instructionLen code p]) ++
    jumpDests code p

/-- The section that the `CALLF` at `p` calls. -/
def calleeAt (code : Buffer) (metadata : List FunctionMetadata) (p : ℕ) : Option FunctionMetadata :=
  metadata[code.getU16OrDefault (p + 1)]?

/-- The height behind the instruction at `p`. -/
def heightAfter (code : Buffer) (metadata : List FunctionMetadata) (p height : ℕ) : ℕ :=
  let op := code.getOrDefault p
  if op = CALLF then (calleeAt code metadata p).elim height fun callee =>
    height - callee.input.toNat + callee.output.toNat
  else (find? op).elim height fun info => height + STACK_LIMIT - info.maxStack

/-- The instruction at `p` may run at this height. -/
def HeightFits (code : Buffer) (metadata : List FunctionMetadata) (current : FunctionMetadata)
    (p height : ℕ) : Prop :=
  let op := code.getOrDefault p
  (∃ info, find? op = some info ∧ info.minStack ≤ height ∧ height ≤ info.maxStack) ∧
    (op = CALLF → ∃ callee, calleeAt code metadata p = some callee ∧
      callee.input.toNat ≤ height ∧ callee.output.toNat + height ≤ STACK_LIMIT) ∧
    (op = RETF → current.output.toNat = height)

/-- The flow of a section. -/
def flow (code : Buffer) (metadata : List FunctionMetadata) (current : FunctionMetadata) :
    FlowGraph ℕ ℕ where
  entry := 0
  label := current.input.toNat
  inside p := p < code.len
  next := nextPositions code
  after := heightAfter code metadata
  fits := HeightFits code metadata current

variable {code : Buffer} {metadata : List FunctionMetadata} {current : FunctionMetadata}
  {p height : ℕ} {op : UInt8} {info : OpcodeInfo} {w : Walk}

/-! ## What the walk does at one position -/

/-- What a visit leaves to be visited. -/
def Visit.pending : Visit → List Item
  | .goOn item w => item :: w.worklist
  | .stop w => w.worklist

/-- The walk after a visit. -/
def Visit.walk : Visit → Walk
  | .goOn _ w => w
  | .stop w => w

/-- Control goes on from `p` as the section's flow has it. -/
structure Follows (code : Buffer) (p after : ℕ) (w : Walk) (v : Visit) : Prop where
  heights : v.walk.heights = w.heights
  heightUpdate : v.walk.heightUpdate = w.heightUpdate
  maxStackHeight : v.walk.maxStackHeight = w.maxStackHeight
  pending : ∀ x, x ∈ v.pending ↔ x ∈ w.worklist ∨ (x.pos ∈ nextPositions code p ∧ x.height = after)
  length : v.walk.worklist.length ≤ w.worklist.length + 255
  goOn : ∀ item w', v = .goOn item w' → item.pos ∈ nextPositions code p ∧ item.height = after
  stop : ∀ w', v = .stop w' → nextPositions code p = []

theorem isTerminal_jumps : isTerminalOpcode RJUMP = true ∧ isTerminalOpcode RETF = true ∧
    isTerminalOpcode RJUMPI = false ∧ isTerminalOpcode RJUMPV = false ∧
      isTerminalOpcode CALLF = false := by
  decide +kernel

theorem isTerminal_push : ∀ op : UInt8, PUSH1 ≤ op ∧ op ≤ PUSH32 → isTerminalOpcode op = false ∧
    op ≠ RJUMP ∧ op ≠ RJUMPI ∧ op ≠ RJUMPV ∧ (Bitvec.immediateSize op).toNat = (op - PUSH0).toNat :=
  forall_byte (by decide +kernel)

theorem item_ext_iff {x : Item} {q h : ℕ} : x = ⟨q, h⟩ ↔ x.pos = q ∧ x.height = h := by
  rcases x with ⟨pos, height⟩
  rw [Item.mk.injEq]

/-- One successor, and nothing new to visit besides. -/
theorem follows_goOn {q : ℕ} (h : nextPositions code p = [q]) :
    Follows code p height w (.goOn ⟨q, height⟩ w) where
  heights := rfl
  heightUpdate := rfl
  maxStackHeight := rfl
  pending x := by
    rw [Visit.pending, List.mem_cons, item_ext_iff, h, List.mem_singleton, or_comm]
  length := Nat.le_add_right ..
  goOn item w' heq := by
    obtain ⟨rfl, -⟩ := Visit.goOn.inj heq
    exact ⟨h ▸ List.mem_singleton_self q, rfl⟩
  stop w' heq := by cases heq

/-- No successor. -/
theorem follows_stop (h : nextPositions code p = []) : Follows code p height w (.stop w) where
  heights := rfl
  heightUpdate := rfl
  maxStackHeight := rfl
  pending x := by
    rw [Visit.pending, h]
    exact ⟨.inl, fun hx => hx.resolve_right fun hx => absurd hx.1 List.not_mem_nil⟩
  length := Nat.le_add_right ..
  goOn item w' heq := by cases heq
  stop w' _ := h

/-- The next instruction, and the destinations of a table. -/
theorem follows_table {q : ℕ} (targets : List ℕ) (h : nextPositions code p = q :: targets)
    (hlen : targets.length ≤ 255) :
    Follows code p height w (.goOn ⟨q, height⟩ { w with
      worklist := (targets.map fun t => Item.mk t height).reverse ++ w.worklist }) where
  heights := rfl
  heightUpdate := rfl
  maxStackHeight := rfl
  pending x := by
    simp only [Visit.pending, List.mem_cons, List.mem_append, List.mem_reverse, List.mem_map, h,
      item_ext_iff]
    constructor
    · rintro (⟨hpos, hheight⟩ | ⟨t, ht, rfl⟩ | hx)
      · exact .inr ⟨.inl hpos, hheight⟩
      · exact .inr ⟨.inr ht, rfl⟩
      · exact .inl hx
    · rintro (hx | ⟨hpos | ht, rfl⟩)
      · exact .inr (.inr hx)
      · exact .inl ⟨hpos, rfl⟩
      · exact .inr (.inl ⟨x.pos, ht, rfl⟩)
  length := by
    show (_ ++ _ : List Item).length ≤ _
    rw [List.length_append, List.length_reverse, List.length_map]
    omega
  goOn item w' heq := by
    obtain ⟨rfl, -⟩ := Visit.goOn.inj heq
    exact ⟨h ▸ List.mem_cons_self, rfl⟩
  stop w' heq := by cases heq

/-! ## Where an instruction goes -/

theorem nextPositions_of_ne (hjump : ¬(op = RJUMP ∨ op = RJUMPI)) (htable : op ≠ RJUMPV)
    (hop : code.getOrDefault p = op) :
    nextPositions code p = if isTerminalOpcode op then [] else [p + instructionLen code p] := by
  simp only [nextPositions, jumpDests, hop, if_neg hjump, if_neg htable, List.append_nil]

theorem isTerminalOpcode_eq (h : find? op = some info) : isTerminalOpcode op = info.terminal := by
  rw [isTerminalOpcode, h, Option.any_some]

theorem find?_callf : find? CALLF = some ⟨0, STACK_LIMIT, false⟩ := by
  decide +kernel

/-- **Following an instruction** that fits goes where the flow of the section goes. -/
theorem followInstruction_ok (hfind : find? (code.getOrDefault p) = some info)
    (hfits : HeightFits code metadata current p height) :
    ∃ v, followInstruction code metadata current (code.getOrDefault p) info.terminal p
        (height + STACK_LIMIT - info.maxStack) w () = .ok v () ∧
      Follows code p (heightAfter code metadata p height) w v := by
  obtain ⟨⟨info', hinfo', -, -⟩, hcallee, hout⟩ := hfits
  obtain ⟨hrjump, hretf, hrjumpi, hrjumpv, hcallf⟩ := isTerminal_jumps
  generalize hop : code.getOrDefault p = op at *
  have hterminal := isTerminalOpcode_eq hfind
  have hafter : op ≠ CALLF →
      heightAfter code metadata p height = height + STACK_LIMIT - info.maxStack := by
    intro hne
    simp only [heightAfter, hop, if_neg hne, hfind, Option.elim_some]
  have hlen : ∀ n, op ≠ RJUMPV ∧ (Bitvec.immediateSize op).toNat = n →
      p + instructionLen code p = p + (1 + n) := fun n h => by
    rw [instructionLen_of_ne (hop.symm ▸ h)]
  rw [followInstruction]
  split_ifs with hop₁ hop₂ hop₃ hop₄ hop₅ hop₆ hop₇
  · subst hop₁
    obtain ⟨callee, hget, hin, hout'⟩ := hcallee rfl
    obtain rfl : info = ⟨0, STACK_LIMIT, false⟩ := Option.some.inj (hfind.symm.trans find?_callf)
    have hheight : height + STACK_LIMIT - STACK_LIMIT = height := Nat.add_sub_cancel ..
    have hto : heightAfter code metadata p height =
        height - callee.input.toNat + callee.output.toNat := by
      simp only [heightAfter, hop, hget, Option.elim_some, if_true]
    rw [calleeAt] at hget
    simp only [hget, hheight, hto, require_eq (decide_eq_true hin),
      require_eq (decide_eq_true hout'), bind_run, pure_run, Outcome.ok_andThen]
    refine ⟨_, rfl, follows_goOn ?_⟩
    rw [nextPositions_of_ne (by decide) (by decide) hop, hcallf,
      hlen 2 (immediateSize_two _ (.inr (.inr rfl)))]
    rfl
  · subst hop₂
    have hheight : height + STACK_LIMIT - info.maxStack = height := by
      obtain rfl : info = ⟨0, STACK_LIMIT, true⟩ :=
        Option.some.inj (hfind.symm.trans (by decide +kernel))
      exact Nat.add_sub_cancel ..
    rw [hheight, require_eq (decide_eq_true (hout rfl))]
    refine ⟨_, rfl, follows_stop ?_⟩
    rw [nextPositions_of_ne (by decide) (by decide) hop, hretf]
    rfl
  · subst hop₃
    rw [hafter hop₁]
    refine ⟨_, rfl, follows_goOn ?_⟩
    simp only [nextPositions, jumpDests, hop, hrjump, if_true, true_or, List.nil_append]
    rfl
  · subst hop₄
    rw [hafter hop₁]
    refine ⟨_, rfl, follows_table [relativeTarget code p] ?_ (Nat.le_of_lt_succ ?_)⟩
    · simp only [nextPositions, jumpDests, hop, hrjumpi, if_true, or_true, Bool.false_eq_true,
        if_false, hlen 2 (immediateSize_two _ (.inr (.inl rfl)))]
      rfl
    · exact Nat.one_lt_succ_succ 254
  · subst hop₅
    rw [hafter hop₁]
    refine ⟨_, ?_, follows_table (q := p + 2 + 2 * tableCount code p)
      ((List.range (tableCount code p)).map (tableTarget code p)) ?_ ?_⟩
    · rw [List.map_map]
      rfl
    · simp only [nextPositions, jumpDests, hop, hrjumpv, if_true, Bool.false_eq_true, if_false,
        instructionLen_rjumpv hop, tableCount]
      rw [if_neg (by decide), Nat.add_assoc]
      rfl
    · rw [List.length_map, List.length_range]
      exact Nat.le_of_lt_succ (code.getOrDefault (p + 1)).toNat_lt
  · obtain ⟨hnot, -, -, -, hsize⟩ := isTerminal_push op hop₆
    rw [hafter hop₁]
    refine ⟨_, rfl, follows_goOn ?_⟩
    rw [nextPositions_of_ne (by tauto) hop₅ hop, hnot, hlen _ ⟨hop₅, hsize⟩, Nat.add_assoc]
    rfl
  · rw [hafter hop₁]
    refine ⟨_, rfl, follows_stop ?_⟩
    rw [nextPositions_of_ne (by tauto) hop₅ hop, hterminal, hop₇]
    rfl
  · rw [hafter hop₁]
    refine ⟨_, rfl, follows_goOn ?_⟩
    have hzero : (Bitvec.immediateSize op).toNat = 0 := by
      refine immediateSize_zero op (fun h => hop₆ ⟨?_, h.2⟩) (by tauto) hop₁
      exact UInt8.le_iff_toNat_le.2 (UInt8.lt_iff_toNat_lt.1 h.1)
    rw [nextPositions_of_ne (by tauto) hop₅ hop, hterminal, if_neg hop₇, hlen 0 ⟨hop₅, hzero⟩]

/-- Following an instruction that does not fit fails. -/
theorem followInstruction_err (hfind : find? (code.getOrDefault p) = some info)
    (hmin : info.minStack ≤ height) (hmax : height ≤ info.maxStack)
    (hfits : ¬HeightFits code metadata current p height) :
    ∃ e, followInstruction code metadata current (code.getOrDefault p) info.terminal p
      (height + STACK_LIMIT - info.maxStack) w () = .err e () := by
  simp only [HeightFits] at hfits
  generalize hop : code.getOrDefault p = op at *
  rw [and_iff_right ⟨info, hfind, hmin, hmax⟩, not_and_or, Classical.not_imp,
    Classical.not_imp] at hfits
  rcases hfits with ⟨rfl, hcallee⟩ | ⟨rfl, hout⟩
  · obtain rfl : info = ⟨0, STACK_LIMIT, false⟩ := Option.some.inj (hfind.symm.trans find?_callf)
    have hheight : height + STACK_LIMIT - STACK_LIMIT = height := Nat.add_sub_cancel ..
    rw [followInstruction, if_pos rfl, hheight]
    rcases hget : metadata[code.getU16OrDefault (p + 1)]? with _ | callee
    · exact ⟨_, rfl⟩
    · simp only [calleeAt, hget, Option.some.injEq, exists_eq_left'] at hcallee
      by_cases hin : callee.input.toNat ≤ height
      · have hover : ¬callee.output.toNat + height ≤ STACK_LIMIT := fun h => hcallee ⟨hin, h⟩
        simp only [bind_run, pure_run, Outcome.ok_andThen, require_eq (decide_eq_true hin),
          require_eq_fail (decide_eq_false hover), fail_run, Outcome.err_andThen]
        exact ⟨_, rfl⟩
      · simp only [bind_run, pure_run, Outcome.ok_andThen,
          require_eq_fail (decide_eq_false hin), fail_run, Outcome.err_andThen]
        exact ⟨_, rfl⟩
  · have hheight : height + STACK_LIMIT - info.maxStack = height := by
      obtain rfl : info = ⟨0, STACK_LIMIT, true⟩ :=
        Option.some.inj (hfind.symm.trans (by decide +kernel))
      exact Nat.add_sub_cancel ..
    rw [followInstruction, if_neg (by decide), if_pos rfl, hheight, bind_run,
      require_eq_fail (decide_eq_false hout)]
    exact ⟨_, rfl⟩

/-! ## What the walk keeps -/

/-- The positions that have a height. -/
def visited (w : Walk) : Finset ℕ :=
  (Finset.range w.heights.length).filter fun p => (w.heights.getD p none).isSome

/-- The items that are left to visit. -/
def pendingItems (cur : Option Item) (w : Walk) : List Item := cur.toList ++ w.worklist

/-- The walk has the height that control arrives with at `q`, or is going to visit it. -/
def Known (code : Buffer) (cur : Option Item) (w : Walk) (q h : ℕ) : Prop :=
  (⟨q, h⟩ : Item) ∈ pendingItems cur w ∨ code.len ≤ q ∨ w.heights[q]? = some (some h)

/-- What the walk has found so far. -/
structure Explored (code : Buffer) (metadata : List FunctionMetadata) (current : FunctionMetadata)
    (cur : Option Item) (w : Walk) : Prop where
  length : w.heights.length = code.len
  entry : Known code cur w 0 current.input.toNat
  pending : ∀ x ∈ pendingItems cur w, (flow code metadata current).Reach x.pos x.height
  reach : ∀ {p h}, w.heights[p]? = some (some h) → (flow code metadata current).Reach p h
  fits : ∀ {p h}, w.heights[p]? = some (some h) → HeightFits code metadata current p h
  next : ∀ {p h}, w.heights[p]? = some (some h) → ∀ q ∈ nextPositions code p,
    Known code cur w q (heightAfter code metadata p h)
  count : w.heightUpdate = (visited w).card
  max_reach : ∃ p, (flow code metadata current).Reach p w.maxStackHeight
  entry_le : current.input.toNat ≤ w.maxStackHeight
  after_le : ∀ {p h}, w.heights[p]? = some (some h) → ∀ q ∈ nextPositions code p,
    heightAfter code metadata p h ≤ w.maxStackHeight

/-- How many steps the walk has left at most: a visit leaves 255 items, and an item takes two. -/
def stepsLeft (code : Buffer) (cur : Option Item) (w : Walk) : ℕ :=
  512 * (code.len - w.heightUpdate) + 2 * w.worklist.length + cur.toList.length

theorem mem_visited : p ∈ visited w ↔ ∃ h, w.heights[p]? = some (some h) := by
  rw [visited, Finset.mem_filter, Finset.mem_range, List.getD_eq_getElem?_getD]
  rcases hp : w.heights[p]? with _ | o
  · exact ⟨fun h => absurd h.2 Bool.false_ne_true, fun ⟨_, h⟩ => (nomatch h)⟩
  · rw [Option.getD_some, Option.isSome_iff_exists,
      and_iff_right (List.getElem?_eq_some_iff.1 hp).1]
    simp only [Option.some.injEq]

variable {cur : Option Item} {item : Item}

/-- **Nothing is lost** with an item whose position is known. -/
theorem Explored.drop (h : Explored code metadata current (some item) w)
    (hitem : code.len ≤ item.pos ∨ w.heights[item.pos]? = some (some item.height)) :
    Explored code metadata current none w := by
  have hknown : ∀ {q k}, Known code (some item) w q k → Known code none w q k := by
    rintro q k (hmem | hk)
    · rcases List.mem_cons.1 hmem with rfl | hmem
      · exact .inr hitem
      · exact .inl hmem
    · exact .inr hk
  exact { h with
    entry := hknown h.entry
    pending := fun x hx => h.pending x (List.mem_cons_of_mem _ hx)
    next := fun hp q hq => hknown (h.next hp q hq) }

/-- The next item. -/
theorem Explored.take {rest : List Item} (h : Explored code metadata current none w)
    (hw : w.worklist = item :: rest) :
    Explored code metadata current (some item) { w with worklist := rest } := by
  obtain ⟨heights, heightUpdate, maxStackHeight, worklist⟩ := w
  obtain rfl : worklist = item :: rest := hw
  exact ⟨h.length, h.entry, h.pending, h.reach, h.fits, h.next, h.count, h.max_reach, h.entry_le,
    h.after_le⟩

/-! ## One step of the walk -/

/-- The item that a visit goes on with. -/
def Visit.item? : Visit → Option Item
  | .goOn item _ => some item
  | .stop _ => none

/-- A first visit: its height is recorded, and control goes on as the section's flow has it. -/
structure Visited (code : Buffer) (metadata : List FunctionMetadata) (p height : ℕ) (w : Walk)
    (cur : Option Item) (w' : Walk) : Prop where
  heights : w'.heights = w.heights.set p (some height)
  heightUpdate : w'.heightUpdate = w.heightUpdate + 1
  pending : ∀ x, x ∈ pendingItems cur w' ↔ x ∈ w.worklist ∨
    (x.pos ∈ nextPositions code p ∧ x.height = heightAfter code metadata p height)
  length : w'.worklist.length ≤ w.worklist.length + 255
  max : (nextPositions code p = [] ∧ w'.maxStackHeight = w.maxStackHeight) ∨
    (nextPositions code p ≠ [] ∧
      w'.maxStackHeight = max w.maxStackHeight (heightAfter code metadata p height))

/-- **A first visit** of a position where the height fits. -/
theorem visitInstruction_ok (hget : w.heights[item.pos]? = some none)
    (hfits : HeightFits code metadata current item.pos item.height) :
    ∃ v, visitInstruction code metadata current item w () = .ok v () ∧
      Visited code metadata item.pos item.height w v.item? v.walk := by
  obtain ⟨info, hfind, hmin, hmax⟩ := hfits.1
  have hvalid : isOpcodeValid (code.getOrDefault item.pos) = true := by
    rw [isOpcodeValid, hfind, Option.isSome_some]
  obtain ⟨v, hrun, hv⟩ := followInstruction_ok (w := { w with
    heights := w.heights.set item.pos (some item.height)
    heightUpdate := w.heightUpdate + 1 }) hfind hfits
  simp only [visitInstruction, hget, ofOption, bind_run, pure_run, Outcome.ok_andThen,
    assertOpcodeValid, require_eq hvalid, hfind, require_eq (decide_eq_true hmin),
    require_eq (decide_eq_true hmax), hrun]
  rcases v with ⟨next, w'⟩ | w'
  · obtain ⟨hnext, hheight⟩ := hv.goOn next w' rfl
    refine ⟨_, rfl, hv.heights, hv.heightUpdate, hv.pending, hv.length, .inr ⟨?_, ?_⟩⟩
    · exact List.ne_nil_of_mem hnext
    · show max w'.maxStackHeight next.height = _
      rw [hheight, show w'.maxStackHeight = w.maxStackHeight from hv.maxStackHeight]
  · exact ⟨_, rfl, hv.heights, hv.heightUpdate, hv.pending, hv.length,
      .inl ⟨hv.stop w' rfl, hv.maxStackHeight⟩⟩

/-- A visit fails where the height does not fit. -/
theorem visitInstruction_err (hget : w.heights[item.pos]? = some none)
    (hfits : ¬HeightFits code metadata current item.pos item.height) :
    ∃ e, visitInstruction code metadata current item w () = .err e () := by
  simp only [visitInstruction, hget, ofOption, bind_run, pure_run, Outcome.ok_andThen,
    assertOpcodeValid]
  rcases hfind : find? (code.getOrDefault item.pos) with _ | info
  · rw [require_eq_fail (by rw [isOpcodeValid, hfind, Option.isSome_none])]
    exact ⟨_, rfl⟩
  · have hvalid : isOpcodeValid (code.getOrDefault item.pos) = true := by
      rw [isOpcodeValid, hfind, Option.isSome_some]
    by_cases hmin : info.minStack ≤ item.height
    · by_cases hmax : item.height ≤ info.maxStack
      · obtain ⟨e, hrun⟩ := followInstruction_err (w := { w with
          heights := w.heights.set item.pos (some item.height)
          heightUpdate := w.heightUpdate + 1 }) hfind hmin hmax hfits
        simp only [require_eq hvalid, require_eq (decide_eq_true hmin),
          require_eq (decide_eq_true hmax), bind_run, pure_run, Outcome.ok_andThen, hrun]
        exact ⟨e, rfl⟩
      · simp only [require_eq hvalid, require_eq (decide_eq_true hmin),
          require_eq_fail (decide_eq_false hmax), bind_run, pure_run, Outcome.ok_andThen]
        exact ⟨_, rfl⟩
    · simp only [require_eq hvalid, require_eq_fail (decide_eq_false hmin), bind_run, pure_run,
        Outcome.ok_andThen]
      exact ⟨_, rfl⟩

theorem getElem?_record {heights : List (Option ℕ)} {q k : ℕ} (hlt : p < heights.length) :
    (heights.set p (some height))[q]? = some (some k) ↔
      (q = p ∧ k = height) ∨ (q ≠ p ∧ heights[q]? = some (some k)) := by
  rw [List.getElem?_set]
  by_cases hq : q = p
  · subst hq
    rw [if_pos rfl, if_pos hlt, Option.some.injEq, Option.some.injEq]
    tauto
  · rw [if_neg (Ne.symm hq)]
    tauto

/-- **A first visit** keeps what the walk has found. -/
theorem Explored.visit {w' : Walk} {cur : Option Item}
    (h : Explored code metadata current (some item) w) (hin : item.pos < code.len)
    (hget : w.heights[item.pos]? = some none)
    (hfits : HeightFits code metadata current item.pos item.height)
    (hv : Visited code metadata item.pos item.height w cur w') :
    Explored code metadata current cur w' := by
  have hlt : item.pos < w.heights.length := h.length ▸ hin
  have hrecord : ∀ {q k : ℕ}, w'.heights[q]? = some (some k) ↔
      (q = item.pos ∧ k = item.height) ∨ (q ≠ item.pos ∧ w.heights[q]? = some (some k)) := by
    intro q k
    rw [hv.heights]
    exact getElem?_record hlt
  have hkeep : ∀ {q k : ℕ}, w.heights[q]? = some (some k) → w'.heights[q]? = some (some k) := by
    refine fun hq => hrecord.2 (.inr ⟨?_, hq⟩)
    rintro rfl
    rw [hget] at hq
    exact absurd (Option.some.inj hq) (Option.some_ne_none _).symm
  have hitem : (flow code metadata current).Reach item.pos item.height :=
    h.pending item List.mem_cons_self
  have hknown : ∀ {q k}, Known code (some item) w q k → Known code cur w' q k := by
    rintro q k (hmem | hout | hq)
    · rcases List.mem_cons.1 hmem with rfl | hmem
      · exact .inr (.inr (hrecord.2 (.inl ⟨rfl, rfl⟩)))
      · exact .inl ((hv.pending _).2 (.inl hmem))
    · exact .inr (.inl hout)
    · exact .inr (.inr (hkeep hq))
  have hmax : w.maxStackHeight ≤ w'.maxStackHeight := by
    rcases hv.max with ⟨-, heq⟩ | ⟨-, heq⟩
    · exact heq.ge
    · exact heq ▸ le_max_left ..
  refine ⟨?_, hknown h.entry, fun x hx => ?_, fun hq => ?_, fun hq => ?_, fun hq q hnext => ?_, ?_,
    ?_, h.entry_le.trans hmax, fun hq q hnext => ?_⟩
  · rw [hv.heights, List.length_set, h.length]
  · rcases (hv.pending x).1 hx with hmem | ⟨hnext, hheight⟩
    · exact h.pending x (List.mem_cons_of_mem _ hmem)
    · exact hheight ▸ .step hitem hin hnext
  · rcases hrecord.1 hq with ⟨rfl, rfl⟩ | ⟨-, hq⟩
    · exact hitem
    · exact h.reach hq
  · rcases hrecord.1 hq with ⟨rfl, rfl⟩ | ⟨-, hq⟩
    · exact hfits
    · exact h.fits hq
  · rcases hrecord.1 hq with ⟨rfl, rfl⟩ | ⟨-, hq⟩
    · exact .inl ((hv.pending _).2 (.inr ⟨hnext, rfl⟩))
    · exact hknown (h.next hq q hnext)
  · have hinsert : visited w' = insert item.pos (visited w) := by
      ext q
      rw [Finset.mem_insert, mem_visited, mem_visited]
      constructor
      · rintro ⟨k, hq⟩
        exact (hrecord.1 hq).imp And.left fun hq => ⟨k, hq.2⟩
      · rintro (rfl | ⟨k, hq⟩)
        · exact ⟨_, hrecord.2 (.inl ⟨rfl, rfl⟩)⟩
        · exact ⟨k, hkeep hq⟩
    rw [hv.heightUpdate, h.count, hinsert, Finset.card_insert_of_notMem]
    rw [mem_visited, hget]
    rintro ⟨k, hk⟩
    exact absurd (Option.some.inj hk) (Option.some_ne_none _).symm
  · rcases hv.max with ⟨-, heq⟩ | ⟨hne, heq⟩
    · exact heq ▸ h.max_reach
    · obtain ⟨q, hq⟩ := List.exists_mem_of_ne_nil _ hne
      rcases max_choice w.maxStackHeight (heightAfter code metadata item.pos item.height) with hm | hm
      · exact (heq.trans hm) ▸ h.max_reach
      · exact (heq.trans hm) ▸ ⟨q, .step hitem hin hq⟩
  · rcases hrecord.1 hq with ⟨rfl, rfl⟩ | ⟨-, hq⟩
    · rcases hv.max with ⟨hnil, -⟩ | ⟨-, heq⟩
      · exact absurd (hnil ▸ hnext) List.not_mem_nil
      · exact heq ▸ le_max_right ..
    · exact (h.after_le hq q hnext).trans hmax

theorem Explored.heightUpdate_le {cur : Option Item}
    (h : Explored code metadata current cur w) : w.heightUpdate ≤ code.len := by
  rw [h.count, ← h.length, visited]
  exact (Finset.card_filter_le ..).trans (Finset.card_range _).le

/-- **A visit** keeps what the walk has found and leaves less to do; it fails only if heights cannot
be assigned. -/
theorem visitInstruction_sat (h : Explored code metadata current (some item) w)
    (hin : item.pos < code.len) :
    (visitInstruction code metadata current item w ()).Sat
      (fun v _ => Explored code metadata current v.item? v.walk ∧
        stepsLeft code v.item? v.walk < stepsLeft code (some item) w)
      (fun _ _ => ¬(flow code metadata current).Coherent) fun _ => False := by
  have hitem : (flow code metadata current).Reach item.pos item.height :=
    h.pending item List.mem_cons_self
  have hlt : item.pos < w.heights.length := h.length ▸ hin
  obtain ⟨o, hget⟩ : ∃ o, w.heights[item.pos]? = some o := ⟨_, List.getElem?_eq_getElem hlt⟩
  rcases o with _ | want
  · by_cases hfits : HeightFits code metadata current item.pos item.height
    · obtain ⟨v, hrun, hv⟩ := visitInstruction_ok hget hfits
      have hexplored := h.visit hin hget hfits hv
      rw [hrun]
      refine ⟨hexplored, ?_⟩
      have hle := hexplored.heightUpdate_le
      have hlen := hv.length
      have hcur : v.item?.toList.length ≤ 1 := by
        rcases v with _ | _
        · exact le_rfl
        · exact Nat.zero_le 1
      simp only [stepsLeft, hv.heightUpdate, Option.toList_some, List.length_singleton] at hle ⊢
      omega
    · obtain ⟨e, hrun⟩ := visitInstruction_err hget hfits
      rw [hrun]
      exact fun hcoherent => hfits (hcoherent.fits hitem hin)
  · simp only [visitInstruction, hget, ofOption, bind_run, pure_run, Outcome.ok_andThen]
    by_cases heq : want = item.height
    · rw [require_eq (decide_eq_true heq)]
      refine ⟨h.drop (.inr (heq ▸ hget)), ?_⟩
      exact Nat.lt_succ_self _
    · rw [require_eq_fail (decide_eq_false heq)]
      exact fun hcoherent => heq (hcoherent.unique (h.reach hget) hitem hin)

/-- **The walk** ends, with nothing left to visit, or fails because heights cannot be assigned. -/
theorem walk_sat (fuel : ℕ) {cur : Option Item} (h : Explored code metadata current cur w)
    (hfuel : stepsLeft code cur w < fuel) :
    (walk code metadata current fuel cur w ()).Sat
      (fun w' _ => Explored code metadata current none w' ∧ w'.worklist = [])
      (fun _ _ => ¬(flow code metadata current).Coherent) fun _ => False := by
  induction fuel generalizing cur w with
  | zero => exact absurd hfuel (Nat.not_lt_zero _)
  | succ fuel ih =>
    rcases cur with _ | item
    · rcases hw : w.worklist with _ | ⟨item, rest⟩
      · rw [walk, hw]
        exact ⟨h, hw⟩
      · rw [walk, hw]
        refine ih (h.take hw) ?_
        simp only [stepsLeft, hw, List.length_cons, Option.toList_none, List.length_nil,
          Option.toList_some] at hfuel ⊢
        omega
    · rw [walk]
      by_cases hin : item.pos < code.len
      · rw [if_pos hin, bind_run]
        refine (visitInstruction_sat h hin).andThen fun v _ ⟨hv, hless⟩ => ?_
        rcases v with ⟨next, w'⟩ | w'
        · exact ih hv (by simp only [Visit.item?, Visit.walk] at hless; omega)
        · exact ih hv (by simp only [Visit.item?, Visit.walk] at hless; omega)
      · rw [if_neg hin]
        refine ih (h.drop (.inl (not_lt.1 hin))) ?_
        simp only [stepsLeft, Option.toList_none, List.length_nil, Option.toList_some,
          List.length_singleton] at hfuel ⊢
        omega

/-- What the walk starts from. -/
theorem explored_start : Explored code metadata current none
    ⟨List.replicate code.len none, 0, current.input.toNat, [⟨0, current.input.toNat⟩]⟩ := by
  have hnone : ∀ {p h : ℕ}, (List.replicate code.len none : List (Option ℕ))[p]? ≠
      some (some h) := by
    intro p h hp
    rw [List.getElem?_replicate] at hp
    split_ifs at hp
    exact absurd (Option.some.inj hp) (Option.some_ne_none _).symm
  refine ⟨List.length_replicate .., .inl (List.mem_singleton_self _), fun x hx => ?_,
    fun hp => absurd hp hnone, fun hp => absurd hp hnone, fun hp => absurd hp hnone, ?_,
    ⟨0, .entry⟩, le_rfl, fun hp => absurd hp hnone⟩
  · obtain rfl := List.mem_singleton.1 hx
    exact .entry
  · symm
    rw [Finset.card_eq_zero, Finset.eq_empty_iff_forall_notMem]
    intro p hp
    obtain ⟨h, hp⟩ := mem_visited.1 hp
    exact hnone hp

/-! ## The end of the walk -/

section

variable (h : Explored code metadata current none w) (hw : w.worklist = [])

include h hw

/-- **Every height** that control arrives with inside the code has been recorded. -/
theorem Explored.recorded {q k : ℕ} (hq : (flow code metadata current).Reach q k)
    (hin : q < code.len) : w.heights[q]? = some (some k) := by
  have hclosed : ∀ {q k}, Known code none w q k → q < code.len →
      w.heights[q]? = some (some k) := by
    rintro q k (hmem | hout | hq) hin
    · rw [pendingItems, hw] at hmem
      exact absurd hmem List.not_mem_nil
    · exact absurd hin (Nat.not_lt_of_le hout)
    · exact hq
  exact FlowGraph.Reach.of_closed (R := fun q k => w.heights[q]? = some (some k))
    (fun hin => hclosed h.entry hin)
    (fun hp _ hnext hin => hclosed (h.next hp _ hnext) hin) hq hin

theorem Explored.coherent : (flow code metadata current).Coherent where
  fits hp hin := h.fits (h.recorded hw hp hin)
  unique hp hp' hin := Option.some.inj
    (Option.some.inj ((h.recorded hw hp hin).symm.trans (h.recorded hw hp' hin)))

theorem Explored.isGreatest :
    IsGreatest {k | ∃ p, (flow code metadata current).Reach p k} w.maxStackHeight := by
  refine ⟨h.max_reach, ?_⟩
  rintro k ⟨p, hp⟩
  rcases hp with _ | ⟨hp, hin, hnext⟩
  · exact h.entry_le
  · exact h.after_le (h.recorded hw hp hin) _ hnext

theorem Explored.heightUpdate_eq : w.heightUpdate =
    Set.ncard {p | p < code.len ∧ (flow code metadata current).Reachable p} := by
  rw [h.count, ← Set.ncard_coe_finset]
  congr 1
  ext p
  rw [Finset.mem_coe, mem_visited, Set.mem_ofPred_eq, FlowGraph.reachable_iff]
  constructor
  · rintro ⟨k, hk⟩
    exact ⟨h.length ▸ (List.getElem?_eq_some_iff.1 hk).1, k, h.reach hk⟩
  · rintro ⟨hin, k, hk⟩
    exact ⟨k, h.recorded hw hk hin⟩

end

theorem stepsLeft_start {height : ℕ} : stepsLeft code none
    ⟨List.replicate code.len none, 0, height, [⟨0, height⟩]⟩ < walkFuel code.len := by
  simp only [stepsLeft, walkFuel, Option.toList_none, List.length_nil, List.length_singleton]
  omega

/-- **The validator's walk** over a section that exists: it finds all heights, and then compares the
largest with the declared one, or it fails because heights cannot be assigned. -/
theorem validateControlFlow_cases (code : Buffer) {sectionIndex : ℕ} (hget : metadata[sectionIndex]? = some current) :
    (∃ w, Explored code metadata current none w ∧ w.worklist = [] ∧
      validateControlFlow code sectionIndex metadata () =
        if w.maxStackHeight = current.maxStackHeight then .ok w.heightUpdate ()
        else .err (.validationInvalidMaxStackHeight sectionIndex w.maxStackHeight
          current.maxStackHeight) ()) ∨
    (∃ e, validateControlFlow code sectionIndex metadata () = .err e () ∧
      ¬(flow code metadata current).Coherent) := by
  have hsat := walk_sat (walkFuel code.len)
    (explored_start : Explored code metadata current none _) stepsLeft_start
  simp only [validateControlFlow, hget, bind_run, pure_run, Outcome.ok_andThen]
  rcases hwalk : walk code metadata current (walkFuel code.len) none
      ⟨List.replicate code.len none, 0, current.input.toNat, [⟨0, current.input.toNat⟩]⟩ ()
    with ⟨w, _⟩ | ⟨e, _⟩ | p
  · rw [hwalk] at hsat
    refine .inl ⟨w, hsat.1, hsat.2, ?_⟩
    rw [Outcome.ok_andThen]
    split_ifs with hmax
    · rw [require_eq (decide_eq_true hmax)]
      rfl
    · rw [require_eq_fail (decide_eq_false hmax)]
      rfl
  · rw [hwalk] at hsat
    exact .inr ⟨e, rfl, hsat⟩
  · rw [hwalk] at hsat
    exact hsat.elim

theorem validateControlFlow_none {sectionIndex : ℕ} (hget : metadata[sectionIndex]? = none) :
    validateControlFlow code sectionIndex metadata () =
      .err (.functionMetadataNotFound sectionIndex) () := by
  rw [validateControlFlow, hget]
  rfl

/-- **The heights that control arrives with** are those of the typing, inside the code. -/
theorem reach_heights {f : ℕ → ℕ} (hf : (flow code metadata current).Typing f) :
    {k | ∃ p, (flow code metadata current).Reach p k} =
      {k | ∃ p < code.len, (flow code metadata current).Reachable p ∧ f p = k} ∪
        {k | ∃ p, code.len ≤ p ∧ (flow code metadata current).Reach p k} := by
  ext k
  constructor
  · rintro ⟨p, hp⟩
    rcases Nat.lt_or_ge p code.len with hin | hout
    · exact .inl ⟨p, hin, hp.reachable, (hf.eq hp hin).symm⟩
    · exact .inr ⟨p, hout, hp⟩
  · rintro (⟨p, hin, hp, rfl⟩ | ⟨p, -, hp⟩)
    · obtain ⟨k, hk⟩ := FlowGraph.reachable_iff.1 hp
      exact ⟨p, hf.eq hk hin ▸ hk⟩
    · exact ⟨p, hp⟩

end Container

open Container opcode in
/-- **The control flow of a section is accepted** exactly if its positions can be given heights, with
the declared maximum as the largest height that control arrives with, inside the code or behind its
end; the walk then counts the positions. -/
theorem control_flow_typing (code : Buffer) (sectionIndex : ℕ) (metadata : List FunctionMetadata) :
    (∀ p, validateControlFlow code sectionIndex metadata () ≠ .panic p) ∧
    ∀ n, validateControlFlow code sectionIndex metadata () = .ok n () ↔
      ∃ current f, metadata[sectionIndex]? = some current ∧
        (flow code metadata current).Typing f ∧
        IsGreatest ({k | ∃ p < code.len, (flow code metadata current).Reachable p ∧ f p = k} ∪
          {k | ∃ p, code.len ≤ p ∧ (flow code metadata current).Reach p k})
          current.maxStackHeight ∧
        n = Set.ncard {p | p < code.len ∧ (flow code metadata current).Reachable p} := by
  rcases hget : metadata[sectionIndex]? with _ | current
  · rw [validateControlFlow_none hget]
    exact ⟨fun p h => (nomatch h), fun n => ⟨fun h => (nomatch h), fun ⟨_, _, h, _⟩ => (nomatch h)⟩⟩
  · rcases validateControlFlow_cases code hget with ⟨w, hw, hnil, hrun⟩ | ⟨e, hrun, hcoherent⟩
    · have hmax := hw.isGreatest hnil
      obtain ⟨f, hf⟩ := FlowGraph.exists_typing_iff.2 (hw.coherent hnil)
      constructor
      · intro p
        rw [hrun]
        split_ifs
        · exact fun h => (nomatch h)
        · exact fun h => (nomatch h)
      · intro n
        rw [hrun]
        constructor
        · intro hok
          split_ifs at hok with heq
          obtain ⟨rfl, -⟩ := Outcome.ok.inj hok
          exact ⟨current, f, rfl, hf, reach_heights hf ▸ heq ▸ hmax, hw.heightUpdate_eq hnil⟩
        · rintro ⟨_, g, ⟨rfl⟩, hg, hgreatest, rfl⟩
          rw [← reach_heights hg] at hgreatest
          rw [if_pos (hmax.unique hgreatest), hw.heightUpdate_eq hnil]
    · constructor
      · intro p
        rw [hrun]
        exact fun h => (nomatch h)
      · intro n
        rw [hrun]
        refine ⟨fun h => (nomatch h), ?_⟩
        rintro ⟨_, g, ⟨rfl⟩, hg, -⟩
        exact absurd (FlowGraph.exists_typing_iff.1 ⟨g, hg⟩) hcoherent

open Container opcode in
/-- A push whose word nothing reads: the height behind the end of the code counts. -/
theorem control_flow_past_end :
    ¬∀ (code : Buffer) (sectionIndex : ℕ) (metadata : List FunctionMetadata) (s : Scan) (n : ℕ),
      scan code metadata (code.len + 1) ⟨0, 0, none, 0⟩ () = .ok s () →
      (validateControlFlow code sectionIndex metadata () = .ok n () ↔
        ∃ current f, metadata[sectionIndex]? = some current ∧
          (flow code metadata current).Typing f ∧
          IsGreatest {k | ∃ p < code.len, (flow code metadata current).Reachable p ∧ f p = k}
            current.maxStackHeight ∧
          n = Set.ncard {p | p < code.len ∧ (flow code metadata current).Reachable p}) := by
  intro h
  have hrun : validateControlFlow (.owned [PUSH0]) 0 [⟨0, 0, 1⟩] () = .ok 1 () := by decide +kernel
  obtain ⟨current, f, hget, hf, ⟨⟨p, hin, -, hp⟩, -⟩, -⟩ := (h _ _ _ _ _ rfl).1 hrun
  obtain rfl := Option.some.inj hget
  obtain rfl : p = 0 := Nat.lt_one_iff.1 hin
  have hzero : f 0 = 0 := hf.entry Nat.one_pos
  exact absurd (hzero.symm.trans hp) (by decide)

end NeonEvm
