import NeonEvm.Evm.RawStack

/-!
# Evm/StackRefinement — the pointers walk a list of words

    Represents r s      below top, the words of s, the lowest first; above it, at least one element

One lemma says what writing a word at `top` and advancing is, one what stepping back is; every push
writes a word in its own layout, every pop reads one.
-/

namespace NeonEvm

open Exec Chunks RawStack Stack

/-! ## Layouts of a word -/

theorem ofBeBytes_replicate_zero_append (k : ℕ) (bs : Bytes) :
    ofBeBytes (List.replicate k 0 ++ bs) = ofBeBytes bs := by
  rw [ofBeBytes, List.foldl_append]
  congr 1
  induction k with
  | zero => rfl
  | succ k ih => rwa [List.replicate_succ, List.foldl_cons]

/-- **A short value** is a word with zeros in front. -/
theorem U256.bytes_ofBytes_short {bs : Bytes} (h : bs.length ≤ 32) :
    (U256.ofBytes bs).bytes = List.replicate (32 - bs.length) 0 ++ bs := by
  have hlen : (List.replicate (32 - bs.length) 0 ++ bs).length = 32 := by
    rw [List.length_append, List.length_replicate, Nat.sub_add_cancel h]
  have hword : U256.ofBytes bs = U256.ofBytes (List.replicate (32 - bs.length) 0 ++ bs) := by
    rw [U256.ofBytes, U256.ofBytes, ofBeBytes_replicate_zero_append]
  rw [hword, U256.bytes_ofBytes hlen]

theorem toBeBytes_add (k m n : ℕ) :
    toBeBytes (k + m) n = toBeBytes k (n / 256 ^ m) ++ toBeBytes m n := by
  induction m generalizing n with
  | zero => simp [toBeBytes]
  | succ m ih =>
    rw [← Nat.add_assoc, toBeBytes, ih, toBeBytes, Nat.div_div_eq_div_mul, ← pow_succ',
      List.append_assoc]

/-- **The last bytes** of a word. -/
theorem U256.drop_bytes (w : U256) : w.bytes.drop 12 = toBeBytes 20 w.toNat := by
  rw [U256.bytes, show (32 : ℕ) = 12 + 20 from rfl, toBeBytes_add,
    List.drop_left' (length_toBeBytes ..)]

/-! ## Words in a row -/

namespace Stack

/-- The bytes of the words, the lowest first. -/
def row (words : List U256) : Bytes := (words.reverse.map U256.bytes).flatten

theorem row_cons (w : U256) (words : List U256) : row (w :: words) = row words ++ w.bytes := by
  rw [row, List.reverse_cons, List.map_append, List.flatten_append, List.map_singleton,
    List.flatten_singleton, row]

theorem length_of_mem_row {words : List U256} {c : Bytes}
    (hc : c ∈ words.reverse.map U256.bytes) : c.length = 32 := by
  obtain ⟨w, -, rfl⟩ := List.mem_map.1 hc
  exact U256.length_bytes w

theorem length_row (words : List U256) : (row words).length = 32 * words.length := by
  rw [row, length_flatten_of_forall fun _ => length_of_mem_row, List.length_map,
    List.length_reverse]

end Stack

/-- The allocation holds the words of the list. -/
structure Represents (r : RawStack) (s : Stack) : Prop where
  top : r.top = 32 * s.len
  size : r.buffer.length = STACK_SIZE
  contents : r.buffer.take r.top = row s.words

theorem represents_new {buffer : Bytes} (h : buffer.length = STACK_SIZE) :
    Represents (RawStack.new buffer) Stack.new := ⟨rfl, h, rfl⟩

variable {r : RawStack} {s : Stack} {w : U256}

/-- **There is room** for a word at `top`, also on a full stack. -/
theorem Represents.room (h : Represents r s) : r.top + 32 ≤ STACK_SIZE := by
  have hbound : s.len ≤ 127 := s.bound
  rw [h.top, STACK_SIZE, ELEMENT_SIZE]
  omega

theorem Represents.top_le (h : Represents r s) : r.top ≤ r.buffer.length := by
  rw [h.size]
  exact (Nat.le_add_right ..).trans h.room

/-- What is below `top` does not depend on what is above. -/
theorem Represents.scratch (h : Represents r s) {bytes : Bytes}
    (hlen : r.top + bytes.length ≤ STACK_SIZE) :
    Represents ⟨overwrite r.buffer r.top bytes, r.top⟩ s where
  top := h.top
  size := (length_overwrite (h.size ▸ hlen)).trans h.size
  contents := by
    have htake : (r.buffer.take r.top).length = r.top := by
      rw [List.length_take, Nat.min_eq_left h.top_le]
    rw [← h.contents, overwrite, List.append_assoc,
      List.take_append_of_le_length (le_of_eq htake.symm), List.take_of_length_le (le_of_eq htake)]

theorem len_eq_limit_iff (h : Represents r s) : r.top = STACK_END ↔ s.len = STACK_LIMIT := by
  rw [h.top, STACK_END, STACK_LIMIT, STACK_SIZE, ELEMENT_SIZE]
  omega

/-- **Advancing over a word** that was written at `top`. -/
theorem Represents.push (h : Represents r s) (w : U256) :
    (RawStack.push ⟨overwrite r.buffer r.top w.bytes, r.top⟩).Agrees Represents
      (pushWord w s) := by
  have hlen : r.top + w.bytes.length ≤ STACK_SIZE := by
    rw [U256.length_bytes]
    exact h.room
  have hscratch := h.scratch hlen
  rw [pushWord, onWords, Stack.push]
  by_cases hfull : s.words.length < STACK_LIMIT
  · have htop : ¬r.top = STACK_END := fun he =>
      absurd ((len_eq_limit_iff h).1 he) (Nat.ne_of_lt hfull)
    rw [dif_pos hfull, RawStack.push, bind_run, gets_run, Outcome.ok_andThen, failIf,
      if_neg (by simpa using htop)]
    refine .ok ⟨?_, hscratch.size, ?_⟩
    · change r.top + 32 = 32 * (s.words.length + 1)
      rw [h.top, Stack.len]
      ring
    · change (overwrite r.buffer r.top w.bytes).take (r.top + 32) = row (w :: s.words)
      have hwritten : (r.buffer.take r.top ++ w.bytes).length = r.top + 32 := by
        rw [List.length_append, List.length_take, Nat.min_eq_left h.top_le, U256.length_bytes]
      rw [overwrite, List.take_append_of_le_length (le_of_eq hwritten.symm),
        List.take_of_length_le (le_of_eq hwritten), h.contents, row_cons]
  · have htop : r.top = STACK_END :=
      (len_eq_limit_iff h).2 (le_antisymm s.bound (Nat.not_lt.1 hfull))
    rw [dif_neg hfull, RawStack.push, bind_run, gets_run, Outcome.ok_andThen, failIf,
      if_pos (by simpa using htop)]
    exact .err hscratch

/-- **Stepping back** over a word. -/
theorem Represents.pop (h : Represents r s) :
    (s.words = [] ∧ RawStack.pop r = .err .stackUnderflow r ∧
      Stack.pop s = .error .stackUnderflow) ∨
    ∃ w s' r', Stack.pop s = .ok (w, s') ∧ RawStack.pop r = .ok () r' ∧ Represents r' s' ∧
      (r'.buffer.drop r'.top).take 32 = w.bytes ∧ r'.top + 32 ≤ STACK_SIZE := by
  rcases s with ⟨_ | ⟨w, words⟩, hbound⟩
  · have htop : r.top = 0 := h.top
    refine .inl ⟨rfl, ?_, rfl⟩
    rw [RawStack.pop, bind_run, gets_run, Outcome.ok_andThen, failIf, if_pos (by simpa using htop)]
    rfl
  · have htop : r.top = 32 * words.length + 32 := h.top
    have hcontents : r.buffer.take r.top = row words ++ w.bytes := h.contents.trans (row_cons ..)
    have hsub : r.top - 32 = (row words).length := by rw [htop, length_row, Nat.add_sub_cancel]
    refine .inr ⟨w, ⟨words, (Nat.le_succ _).trans hbound⟩, ⟨r.buffer, r.top - 32⟩, rfl, ?_, ?_, ?_,
      ?_⟩
    · rw [RawStack.pop, bind_run, gets_run, Outcome.ok_andThen, failIf,
        if_neg (by simp [htop]), bind_run, pure_run, Outcome.ok_andThen, topSub, bind_run, bind_run,
        gets_run, Outcome.ok_andThen, assertThat, if_pos (by simp [htop])]
      rfl
    · refine ⟨by rw [htop]; rfl, h.size, ?_⟩
      have htake := congrArg (List.take (r.top - 32)) hcontents
      rwa [List.take_take, Nat.min_eq_left (Nat.sub_le ..), hsub, List.take_left, ← hsub] at htake
    · have hsplit := List.take_append_drop r.top r.buffer
      change (r.buffer.drop (r.top - 32)).take 32 = w.bytes
      rw [hsub, ← hsplit, hcontents, List.append_assoc, List.drop_left,
        ← U256.length_bytes w, List.take_left]
    · change r.top - 32 + 32 ≤ STACK_SIZE
      rw [Nat.sub_add_cancel (by omega)]
      exact (Nat.le_add_right ..).trans h.room

/-! ## Reading and writing words below `top` -/

theorem readAt_run {offset len : ℕ} (h : offset + len ≤ STACK_SIZE) :
    readAt offset len r = .ok ((r.buffer.drop offset).take len) r := by
  rw [readAt, bind_run, assertThat, if_pos (by simpa using h)]
  rfl

theorem writeAt_run {offset : ℕ} {bytes : Bytes} (h : offset + bytes.length ≤ STACK_SIZE) :
    writeAt offset bytes r = .ok () { r with buffer := overwrite r.buffer offset bytes } := by
  rw [writeAt, bind_run, assertThat, if_pos (by simpa using h)]
  rfl

theorem topSub_run {count : ℕ} (h : count ≤ r.top) :
    topSub count r = .ok (r.top - count) r := by
  rw [topSub, bind_run, gets_run, Outcome.ok_andThen, bind_run, assertThat,
    if_pos (by simpa using h)]
  rfl

theorem getElem?_row {words : List U256} {n : ℕ} (hw : words[n]? = some w) :
    (words.reverse.map U256.bytes)[words.length - 1 - n]? = some w.bytes := by
  have hn : n < words.length := (List.getElem?_eq_some_iff.1 hw).1
  rw [List.getElem?_map, List.getElem?_reverse (by omega),
    show words.length - 1 - (words.length - 1 - n) = n by omega, hw, Option.map_some]

theorem reverse_set {α : Type} {xs : List α} {n : ℕ} (h : n < xs.length) (a : α) :
    (xs.set n a).reverse = xs.reverse.set (xs.length - 1 - n) a := by
  refine List.ext_getElem (by simp) fun i hi _ => ?_
  rw [List.length_reverse, List.length_set] at hi
  rw [List.getElem_reverse, List.getElem_set, List.getElem_set, List.getElem_reverse]
  refine if_congr ?_ rfl ?_
  · rw [List.length_set]
    omega
  · simp only [List.length_set]

/-- The offset of a word. -/
theorem Represents.top_sub (h : Represents r s) (n : ℕ) :
    r.top - (n + 1) * 32 = 32 * (s.words.length - 1 - n) := by
  rw [h.top, Stack.len]
  omega

theorem Represents.le_top (h : Represents r s) {n : ℕ} (hw : s.words[n]? = some w) :
    (n + 1) * 32 ≤ r.top := by
  have hn : n < s.words.length := (List.getElem?_eq_some_iff.1 hw).1
  rw [h.top, Stack.len]
  omega

/-- **Reading** a word. -/
theorem Represents.readWord (h : Represents r s) {n : ℕ} (hw : s.words[n]? = some w) :
    readAt (r.top - (n + 1) * 32) 32 r = .ok w.bytes r := by
  have hle := h.le_top hw
  have hroom := h.room
  rw [readAt_run (by omega), h.top_sub]
  refine congrArg (Outcome.ok · r) ?_
  rw [← List.take_append_drop r.top r.buffer, h.contents]
  exact take_drop_flatten (fun _ => length_of_mem_row) (getElem?_row hw)

/-- **Writing** a word over another. -/
theorem Represents.writeWord (h : Represents r s) {n : ℕ} (hn : n < s.words.length)
    (hbound : (s.words.set n w).length ≤ STACK_LIMIT) :
    Represents ⟨overwrite r.buffer (r.top - (n + 1) * 32) w.bytes, r.top⟩
      ⟨s.words.set n w, hbound⟩ := by
  have hw : s.words[n]? = some s.words[n] := List.getElem?_eq_getElem hn
  have hle := h.le_top hw
  have hlen := U256.length_bytes w
  have htop := h.top_le
  refine ⟨by rw [h.top, Stack.len, Stack.len, List.length_set], ?_, ?_⟩
  · refine (length_overwrite ?_).trans h.size
    omega
  · have hrow : (row s.words).length = r.top := by rw [length_row, h.top, Stack.len]
    have hfull : overwrite (s.words[n]).bytes 0 w.bytes = w.bytes := by
      rw [overwrite, List.take_zero, List.nil_append, List.drop_eq_nil_of_le, List.append_nil]
      rw [U256.length_bytes, hlen]
    have hwritten := @overwrite_flatten _ 32 _ (fun _ => length_of_mem_row) _ 0 _ w.bytes
      (getElem?_row hw) (by rw [hlen])
    rw [Nat.add_zero, hfull, ← h.top_sub, ← List.map_set, ← reverse_set hn] at hwritten
    conv_lhs => rw [← List.take_append_drop r.top r.buffer, h.contents]
    change (overwrite (row s.words ++ _) _ w.bytes).take r.top = row (s.words.set n w)
    rw [overwrite_append_right (by omega), row, hwritten]
    have hlength : (row (s.words.set n w)).length = r.top := by
      rw [length_row, List.length_set, h.top, Stack.len]
    exact List.take_left' hlength

/-! ## One operation -/

/-- A push is a word written at `top`, and an advance. -/
def Puts (x : RawM Unit) (w : U256) : Prop :=
  ∀ r s, Represents r s → x r = RawStack.push ⟨overwrite r.buffer r.top w.bytes, r.top⟩

theorem refines_pushWord {x : RawM Unit} (hx : Puts x w) :
    Refines Represents x (pushWord w) :=
  fun r s h => (hx r s h).symm ▸ h.push w

theorem puts_pushArray {value : Bytes} (h : value.length = 32) :
    Puts (RawStack.pushArray value) (U256.ofBytes value) := by
  intro r s hr
  have hroom := hr.room
  rw [U256.bytes_ofBytes h, RawStack.pushArray, bind_run, gets_run, Outcome.ok_andThen, bind_run,
    writeAt_run (by omega)]
  rfl

theorem puts_pushArray231 {value : Bytes} (h : value.length ≤ 32) :
    Puts (RawStack.pushArray231 value) (U256.ofBytes value) := by
  intro r s hr
  have hroom := hr.room
  have hzeros : (List.replicate (32 - value.length) (0 : UInt8)).length = 32 - value.length :=
    List.length_replicate
  have htwo := @overwrite_append _ r.buffer (List.replicate (32 - value.length) 0) value r.top
    (by rw [hzeros, hr.size]; omega)
  rw [hzeros] at htwo
  rw [U256.bytes_ofBytes_short h, ← htwo, RawStack.pushArray231]
  change (gets RawStack.top >>= _) r = _
  rw [bind_run, gets_run, Outcome.ok_andThen, bind_run,
    writeAt_run (by rw [hzeros]; omega), Outcome.ok_andThen, bind_run, writeAt_run (by omega)]
  rfl

theorem puts_pushZero : Puts RawStack.pushZero 0 := by
  intro r s hr
  have hroom := hr.room
  have hzeros : (List.replicate 32 (0 : UInt8)).length = 32 := rfl
  rw [RawStack.pushZero, bind_run, gets_run, Outcome.ok_andThen, bind_run,
    writeAt_run (by rw [hzeros]; exact hroom)]
  rfl

theorem puts_pushByte (value : UInt8) :
    Puts (RawStack.pushByte value) (BitVec.ofNat 256 value.toNat) := by
  intro r s hr
  have hroom := hr.room
  have hword : BitVec.ofNat 256 value.toNat = U256.ofBytes [value] := by
    rw [U256.ofBytes, ← List.nil_append [value], ofBeBytes_append_singleton, ofBeBytes_nil,
      Nat.zero_mul, Nat.zero_add]
  have hlen : (List.replicate 31 (0 : UInt8)).length = 31 := rfl
  have hzeros : List.replicate 32 (0 : UInt8) = List.replicate 31 0 ++ [0] := rfl
  have hsize : r.top + 31 ≤ r.buffer.length := by rw [hr.size]; omega
  -- the last of the zeros is written twice
  have hbuffer : overwrite (overwrite r.buffer r.top (List.replicate 32 0)) (r.top + 31) [value] =
      overwrite r.buffer r.top (List.replicate 31 0 ++ [value]) := by
    have hone := fun b : UInt8 => @overwrite_append _ r.buffer (List.replicate 31 0) [b] r.top
      (hlen.symm ▸ hsize)
    rw [hlen] at hone
    have hfirst := hone 0
    have hlast := hone value
    rw [hzeros, ← hfirst, ← hlast]
    refine overwrite_overwrite rfl ?_
    rw [length_overwrite (hlen.symm ▸ hsize)]
    exact hsize
  rw [hword, U256.bytes_ofBytes_short (by rw [List.length_singleton]; decide), RawStack.pushByte, bind_run, gets_run,
    Outcome.ok_andThen, bind_run, writeAt_run (by rw [List.length_replicate]; exact hroom),
    Outcome.ok_andThen, bind_run,
    writeAt_run (by rw [List.length_singleton]; omega)]
  exact congrArg (fun buffer => RawStack.push ⟨buffer, r.top⟩) hbuffer

theorem puts_pushBool (value : Bool) :
    Puts (RawStack.pushBool value) (if value then 1 else 0) := by
  cases value with
  | false => exact puts_pushZero
  | true => exact puts_pushByte 1

theorem puts_pushAddress (address : Address) :
    Puts (RawStack.pushAddress address) (address.setWidth 256) := by
  have hlen : address.bytes.length = 20 := length_toBeBytes _ _
  have hword : address.setWidth 256 = U256.ofBytes address.bytes := by
    rw [U256.ofBytes, Address.bytes, ofBeBytes_toBeBytes,
      Nat.mod_eq_of_lt (show address.toNat < 256 ^ 20 from address.isLt), BitVec.ofNat_toNat]
  exact hword ▸ puts_pushArray231 (by rw [hlen]; decide)

theorem puts_pushUsize (value : BitVec 64) :
    Puts (RawStack.pushUsize value) (value.setWidth 256) := by
  have hlen : (toBeBytes 8 value.toNat).length = 8 := length_toBeBytes _ _
  have hword : value.setWidth 256 = U256.ofBytes (toBeBytes 8 value.toNat) := by
    rw [U256.ofBytes, ofBeBytes_toBeBytes,
      Nat.mod_eq_of_lt (show value.toNat < 256 ^ 8 from value.isLt), BitVec.ofNat_toNat]
  exact hword ▸ puts_pushArray231 (by rw [hlen]; decide)

theorem puts_pushU256 (value : U256) : Puts (RawStack.pushU256 value) value := by
  have h := puts_pushArray (U256.length_bytes value)
  rwa [U256.ofBytes_bytes] at h

/-- **A pop** is a step back, and what is then read above `top`. -/
theorem refines_pop {k : RawM StackValue} {g : U256 → WordsM StackValue}
    (hk : ∀ w r s, Represents r s → RawStack.read r = .ok w.bytes r →
      readAt (r.top + 12) 20 r = .ok (toBeBytes 20 w.toNat) r → (k r).Agrees Represents (g w s)) :
    Refines Represents (do RawStack.pop; k) (do g (← popWord)) := by
  intro r s h
  rw [bind_run, bind_run, popWord, onWords]
  rcases h.pop with ⟨-, hraw, hlist⟩ | ⟨w, s', r', hlist, hraw, hr', hword, hroom⟩
  · rw [hraw, hlist]
    exact .err h
  · rw [hraw, hlist]
    refine hk w r' s' hr' ?_ ?_
    · rw [RawStack.read, bind_run, gets_run, Outcome.ok_andThen, readAt_run hroom, hword]
    · rw [readAt_run (by omega), ← U256.drop_bytes, ← hword, List.drop_take, List.drop_drop]

theorem puts_pushI256 (value : ℤ) :
    Puts (RawStack.pushI256 value) (BitVec.ofInt 256 value) :=
  puts_pushU256 (BitVec.ofInt 256 value)

/-- **Copying a word.** -/
theorem refines_dup116 {n : ℕ} (hn : 1 ≤ n) :
    Refines Represents (RawStack.dup116 n) (onWords fun s => (s.dup116 n).map ((), ·)) := by
  obtain ⟨n, rfl⟩ := Nat.exists_eq_add_of_le' hn
  intro r s h
  rw [RawStack.dup116, bind_run, gets_run, Outcome.ok_andThen, onWords, Stack.dup116,
    Nat.add_sub_cancel]
  rcases hw : s.words[n]? with _ | w
  · have hlen : s.words.length ≤ n := List.getElem?_eq_none_iff.1 hw
    have hlt : r.top < (n + 1) * 32 := by
      rw [h.top, Stack.len]
      omega
    rw [bind_run, failIf, if_pos (by simpa using hlt)]
    exact .err h
  · have hle := h.le_top hw
    have hroom := h.room
    rw [bind_run, failIf, if_neg (by simpa using hle), pure_run, Outcome.ok_andThen, bind_run,
      topSub_run hle, Outcome.ok_andThen, bind_run, h.readWord hw, Outcome.ok_andThen, bind_run,
      writeAt_run (by rw [U256.length_bytes]; exact hroom)]
    exact h.push w

/-- **Exchanging two words.** -/
theorem refines_swap116 {n : ℕ} :
    Refines Represents (RawStack.swap116 n) (onWords fun s => (s.swap116 n).map ((), ·)) := by
  intro r s h
  rw [RawStack.swap116, bind_run, gets_run, Outcome.ok_andThen, onWords, Stack.swap116]
  rcases hb : s.words[n]? with _ | b
  · have hlen : s.words.length ≤ n := List.getElem?_eq_none_iff.1 hb
    have hlt : r.top < (n + 1) * 32 := by
      rw [h.top, Stack.len]
      omega
    rw [bind_run, failIf, if_pos (by simpa using hlt)]
    rcases s.words[0]? with _ | a <;> exact .err h
  · have hn : n < s.words.length := (List.getElem?_eq_some_iff.1 hb).1
    have ha : s.words[0]? = some s.words[0] := List.getElem?_eq_getElem (by omega)
    have hle := h.le_top hb
    have hle₀ : 32 ≤ r.top := h.le_top ha
    have hroom := h.room
    have hreada := h.readWord ha
    rw [Nat.zero_add, Nat.one_mul] at hreada
    have hfirst := h.writeWord (w := b) (n := 0) (by omega)
      (by rw [List.length_set]; exact s.bound)
    rw [Nat.zero_add, Nat.one_mul] at hfirst
    have hsecond := hfirst.writeWord (w := s.words[0]) (n := n) (by rw [List.length_set]; exact hn)
      (by rw [List.length_set, List.length_set]; exact s.bound)
    rw [ha, bind_run, failIf, if_neg (by simpa using hle), pure_run, Outcome.ok_andThen, bind_run,
      topSub_run hle₀, Outcome.ok_andThen, bind_run, topSub_run hle, Outcome.ok_andThen, bind_run,
      hreada, Outcome.ok_andThen, bind_run, h.readWord hb, Outcome.ok_andThen, bind_run,
      writeAt_run (by rw [U256.length_bytes]; omega), Outcome.ok_andThen,
      writeAt_run (by rw [U256.length_bytes]; omega)]
    exact .ok hsecond

/-- **Storing and loading** the stack. -/
theorem refines_reload {allocation : Bytes} (hallocation : allocation.length = STACK_SIZE) :
    Refines Represents (do deserialize allocation (← serialize)) (pure () : WordsM Unit) := by
  intro r s h
  have hle : r.top ≤ STACK_SIZE := (Nat.le_add_right ..).trans h.room
  have hlen : (r.buffer.take r.top).length = r.top := by
    rw [List.length_take, Nat.min_eq_left h.top_le]
  have hwords : r.top % 32 = 0 := by
    rw [h.top]
    exact Nat.mul_mod_right ..
  have hread : serialize r = .ok (r.buffer.take r.top) r := by
    rw [serialize, bind_run, gets_run, Outcome.ok_andThen, readAt_run (by rwa [Nat.zero_add]),
      List.drop_zero]
  rw [bind_run, hread, Outcome.ok_andThen, deserialize, bind_run, failIf,
    if_neg (by simp [hlen, hwords]), pure_run, Outcome.ok_andThen, bind_run, modify_run,
    Outcome.ok_andThen, writeAt_run (by rw [Nat.zero_add, hlen]; exact hle)]
  refine .ok ⟨?_, ?_, ?_⟩
  · exact hlen.trans h.top
  · refine (length_overwrite ?_).trans hallocation
    rw [Nat.zero_add, hlen, hallocation]
    exact hle
  · change (overwrite allocation 0 (r.buffer.take r.top)).take (r.buffer.take r.top).length = _
    rw [overwrite, List.take_zero, List.nil_append, List.take_left, h.contents]

/-- **Every operation** on the allocation is the one on the list. -/
theorem refines_op (op : StackOp) : Refines Represents op.exec op.meaning := by
  have push {x : RawM Unit} {w : U256} (hx : Puts x w) :
      Refines Represents (do x; pure StackValue.unit) (do pushWord w; pure StackValue.unit) :=
    refines_bind (refines_pushWord hx) fun _ => refines_pure _
  cases op with
  | pushByte value => exact push (puts_pushByte value)
  | pushZero => exact push puts_pushZero
  | pushArray value h => exact push (puts_pushArray h)
  | pushArray231 value h => exact push (puts_pushArray231 (h.2.trans (Nat.le_succ 31)))
  | pushBool value => exact push (puts_pushBool value)
  | pushAddress address => exact push (puts_pushAddress address)
  | pushUsize value => exact push (puts_pushUsize value)
  | pushU256 value => exact push (puts_pushU256 value)
  | pushI256 value h => exact push (puts_pushI256 value)
  | popU256 =>
    rw [StackOp.exec, RawStack.popU256, bind_bind]
    refine refines_pop fun w r s h hread _ => ?_
    rw [bind_run, bind_run, hread, Outcome.ok_andThen, pure_run, U256.ofBytes_bytes]
    exact .ok h
  | popI256 =>
    rw [StackOp.exec, RawStack.popI256, bind_bind]
    refine refines_pop fun w r s h hread _ => ?_
    rw [bind_run, bind_run, hread, Outcome.ok_andThen, pure_run, U256.ofBytes_bytes]
    exact .ok h
  | popArray =>
    rw [StackOp.exec, RawStack.popArray, bind_bind]
    refine refines_pop fun w r s h hread _ => ?_
    rw [bind_run, hread]
    exact .ok h
  | popUsize =>
    rw [StackOp.exec, RawStack.popUsize, RawStack.popU256, bind_bind, bind_bind]
    refine refines_pop fun w r s h hread _ => ?_
    rw [bind_run, bind_run, hread, Outcome.ok_andThen, pure_run, U256.ofBytes_bytes,
      Outcome.ok_andThen, bind_run]
    rcases w.toUsize? with _ | n
    · exact .err h
    · exact .ok h
  | popAddress =>
    rw [StackOp.exec, RawStack.popAddress, bind_bind]
    refine refines_pop fun w r s h _ hread => ?_
    have haddress : BitVec.ofNat 160 (ofBeBytes (toBeBytes 20 w.toNat)) = w.setWidth 160 := by
      refine BitVec.eq_of_toNat_eq ?_
      rw [ofBeBytes_toBeBytes, BitVec.toNat_ofNat, BitVec.toNat_setWidth]
      exact Nat.mod_mod _ _
    rw [bind_run, bind_run, gets_run, Outcome.ok_andThen, bind_run, hread, Outcome.ok_andThen,
      pure_run, haddress]
    exact .ok h
  | discard => exact refines_pop fun w r s h _ _ => .ok h
  | dup116 n h => exact refines_bind (refines_dup116 h.1) fun _ => refines_pure _
  | swap116 n h => exact refines_bind refines_swap116 fun _ => refines_pure _
  | reload allocation h =>
    rw [StackOp.exec, ← bind_bind]
    exact refines_bind (refines_reload h) fun _ => refines_pure _

/-! ## When an operation fails -/

theorem Stack.pushWord_cases (w : U256) (s : Stack) :
    (s.len < STACK_LIMIT ∧ ∃ s', s'.words = w :: s.words ∧ pushWord w s = .ok () s') ∨
      s.len = STACK_LIMIT ∧ pushWord w s = .err .stackOverflow s := by
  rw [pushWord, onWords, Stack.push]
  by_cases h : s.words.length < STACK_LIMIT
  · rw [dif_pos h]
    exact .inl ⟨h, _, rfl, rfl⟩
  · rw [dif_neg h]
    exact .inr ⟨le_antisymm s.bound (Nat.not_lt.1 h), rfl⟩

theorem Stack.popWord_cases (s : Stack) :
    (∃ w s', s.words = w :: s'.words ∧ popWord s = .ok w s') ∨
      s.len = 0 ∧ popWord s = .err .stackUnderflow s := by
  rcases s with ⟨_ | ⟨w, words⟩, h⟩
  · exact .inr ⟨rfl, rfl⟩
  · exact .inl ⟨w, ⟨words, (Nat.le_succ _).trans h⟩, rfl, rfl⟩

/-- How an operation ends: too few words, a full stack, a word that is no `usize`, or a return. -/
inductive EndsAs (needs : ℕ) (pushes : Bool) (s : Stack) :
    Outcome Outside Error Stack StackValue → Prop
  | underflow (h : s.len < needs) : EndsAs needs pushes s (.err .stackUnderflow s)
  | overflow (h : needs ≤ s.len) (hpushes : pushes = true) (hfull : s.len = STACK_LIMIT) :
    EndsAs needs pushes s (.err .stackOverflow s)
  | tryFromInt {s' : Stack} (h : needs ≤ s.len) (hpops : pushes = false) :
    EndsAs needs pushes s (.err .tryFromIntError s')
  | ok {a : StackValue} {s' : Stack} (h : needs ≤ s.len)
    (hroom : pushes = true → s.len < STACK_LIMIT) : EndsAs needs pushes s (.ok a s')

variable {needs : ℕ} {pushes : Bool} {o : Outcome Outside Error Stack StackValue}

theorem EndsAs.overflow_iff (h : EndsAs needs pushes s o) :
    (∃ t, o = .err .stackOverflow t) ↔ needs ≤ s.len ∧ pushes = true ∧ s.len = STACK_LIMIT := by
  cases h with
  | underflow h => exact iff_of_false (by rintro ⟨_, ⟨⟩⟩) fun ht => absurd ht.1 (Nat.not_le.2 h)
  | overflow h hpushes hfull => exact iff_of_true ⟨s, rfl⟩ ⟨h, hpushes, hfull⟩
  | tryFromInt h hpops =>
    exact iff_of_false (by rintro ⟨_, ⟨⟩⟩) fun ht => Bool.false_ne_true (hpops.symm.trans ht.2.1)
  | ok h hroom =>
    exact iff_of_false (by rintro ⟨_, ⟨⟩⟩) fun ht => Nat.ne_of_lt (hroom ht.2.1) ht.2.2

theorem EndsAs.underflow_iff (h : EndsAs needs pushes s o) :
    (∃ t, o = .err .stackUnderflow t) ↔ s.len < needs := by
  cases h with
  | underflow h => exact iff_of_true ⟨s, rfl⟩ h
  | _ h => exact iff_of_false (by rintro ⟨_, ⟨⟩⟩) (Nat.not_lt.2 h)

theorem endsAs_push (hneeds : needs ≤ s.len) (w : U256) :
    EndsAs needs true s ((do pushWord w; pure StackValue.unit : WordsM StackValue) s) := by
  rw [bind_run]
  rcases Stack.pushWord_cases w s with ⟨hroom, s', -, hrun⟩ | ⟨hfull, hrun⟩
  · rw [hrun]
    exact .ok hneeds fun _ => hroom
  · rw [hrun]
    exact .overflow hneeds rfl hfull

theorem endsAs_pop {g : U256 → WordsM StackValue}
    (hg : ∀ w s, (∃ a, g w s = .ok a s) ∨ g w s = .err .tryFromIntError s) :
    EndsAs 1 false s ((do g (← popWord) : WordsM StackValue) s) := by
  rw [bind_run]
  rcases Stack.popWord_cases s with ⟨w, s', hwords, hrun⟩ | ⟨hempty, hrun⟩
  · have hlen : 1 ≤ s.len := by
      rw [Stack.len, hwords]
      exact Nat.succ_le_succ (Nat.zero_le _)
    rw [hrun, Outcome.ok_andThen]
    rcases hg w s' with ⟨a, ha⟩ | ha
    · rw [ha]
      exact .ok hlen fun h => by cases h
    · rw [ha]
      exact .tryFromInt hlen rfl
  · rw [hrun]
    exact .underflow (hempty ▸ Nat.one_pos)

/-- **How every operation ends.** -/
theorem endsAs_op (op : StackOp) (s : Stack) : EndsAs op.needs op.pushes s (op.meaning s) := by
  cases op with
  | popU256 => exact endsAs_pop fun _ _ => .inl ⟨_, rfl⟩
  | popI256 => exact endsAs_pop fun _ _ => .inl ⟨_, rfl⟩
  | popArray => exact endsAs_pop fun _ _ => .inl ⟨_, rfl⟩
  | popAddress => exact endsAs_pop fun _ _ => .inl ⟨_, rfl⟩
  | discard => exact endsAs_pop fun _ _ => .inl ⟨_, rfl⟩
  | popUsize =>
    refine endsAs_pop fun w _ => ?_
    rcases w.toUsize? with _ | n
    · exact .inr rfl
    · exact .inl ⟨_, rfl⟩
  | dup116 n h =>
    rw [StackOp.meaning, bind_run, onWords, Stack.dup116]
    rcases hw : s.words[n - 1]? with _ | w
    · have hlen : s.words.length ≤ n - 1 := List.getElem?_eq_none_iff.1 hw
      exact .underflow (Nat.lt_of_le_sub_one h.1 hlen)
    · have hlen : n - 1 < s.words.length := (List.getElem?_eq_some_iff.1 hw).1
      exact endsAs_push (Nat.le_of_pred_lt hlen) w
  | swap116 n h =>
    rw [StackOp.meaning, bind_run, onWords, Stack.swap116]
    rcases hb : s.words[n]? with _ | b
    · have hlen : s.words.length ≤ n := List.getElem?_eq_none_iff.1 hb
      rcases s.words[0]? with _ | a <;> exact .underflow (Nat.lt_succ_of_le hlen)
    · have hlen : n < s.words.length := (List.getElem?_eq_some_iff.1 hb).1
      rw [List.getElem?_eq_getElem (Nat.zero_lt_of_lt hlen)]
      exact .ok hlen fun h => by cases h
  | reload => exact .ok (Nat.zero_le _) fun h => by cases h
  | _ => exact endsAs_push (Nat.zero_le _) _

theorem needs_le_limit {op : StackOp} (h : op.pushes = true) : op.needs ≤ STACK_LIMIT := by
  cases op with
  | dup116 n hn => exact hn.2.trans (by decide)
  | _ => first | exact Nat.zero_le _ | cases h

/-! ## A value comes back -/

/-- **On the list**, a value that is pushed and popped in one form is returned. -/
theorem sameForm_meaning {push pop : StackOp} {value : StackValue}
    (h : StackOp.SameForm push pop value) (hs : s.len < STACK_LIMIT) :
    ∃ s', push.meaning s = .ok .unit s' ∧ pop.meaning s' = .ok value s := by
  have pushed : ∀ w, (do pushWord w; pure StackValue.unit : WordsM StackValue) s =
      .ok .unit ⟨w :: s.words, hs⟩ := by
    intro w
    have hpush : s.push w = .ok ⟨w :: s.words, hs⟩ := dif_pos hs
    rw [bind_run, pushWord, onWords, hpush]
    rfl
  cases h with
  | u256 value => exact ⟨_, pushed value, rfl⟩
  | i256 value h =>
    refine ⟨_, pushed _, ?_⟩
    have hint : (BitVec.ofInt 256 value).toInt = value := by
      rw [BitVec.toInt_ofInt]
      exact Int.bmod_eq_of_le (by omega) (by omega)
    exact congrArg (fun v => Outcome.ok (StackValue.int v) s) hint
  | array value h =>
    refine ⟨_, pushed _, ?_⟩
    exact congrArg (fun v => Outcome.ok (StackValue.bytes v) s) (U256.bytes_ofBytes h)
  | usize value =>
    refine ⟨_, pushed _, ?_⟩
    have hword : U256.toUsize? (value.setWidth 256) = some value.toNat := by
      have htoNat : (value.setWidth 256).toNat = value.toNat :=
        BitVec.toNat_setWidth_of_le (by decide)
      rw [U256.toUsize?, htoNat, if_pos (show value.toNat < USIZE from value.isLt)]
    rw [StackOp.meaning, bind_run, popWord, onWords]
    simp only [Stack.pop, Outcome.ok_andThen, hword]
    rfl
  | address value =>
    refine ⟨_, pushed _, ?_⟩
    have hword : (value.setWidth 256).setWidth 160 = value := by
      rw [BitVec.setWidth_setWidth_of_le _ (by decide), BitVec.setWidth_eq]
    exact congrArg (fun v => Outcome.ok (StackValue.address v) s) hword

/-- **The pointers refine a bounded list of words** — every sequence of operations stays inside the
allocation and returns what it returns on the list, whose words are below `top` in the end; an
operation overflows exactly on a full list and underflows exactly where words are missing; and a
value is popped as it was pushed. -/
theorem raw_stack_refines_list {buffer : Bytes} (hbuffer : buffer.length = STACK_SIZE)
    (ops : List StackOp) :
    ∃ results r s, attempts StackOp.exec ops (RawStack.new buffer) = some (results, r) ∧
      attempts StackOp.meaning ops Stack.new = some (results, s) ∧ Represents r s ∧
      (∀ op : StackOp, (∃ r', op.exec r = .err .stackOverflow r') ↔
        op.pushes = true ∧ s.len = STACK_SIZE / 32 - 1) ∧
      (∀ op : StackOp, (∃ r', op.exec r = .err .stackUnderflow r') ↔ s.len < op.needs) ∧
      ∀ {push pop : StackOp} {value : StackValue}, StackOp.SameForm push pop value →
        s.len < STACK_SIZE / 32 - 1 → ∃ r' r'', push.exec r = .ok .unit r' ∧
          pop.exec r' = .ok value r'' ∧ Represents r'' s := by
  obtain ⟨results, r, s, hraw, hlist, hrs⟩ :=
    attempts_refine refines_op ops (represents_new hbuffer)
  refine ⟨results, r, s, hraw, hlist, hrs, fun op => ?_, fun op => ?_, fun hform hs => ?_⟩
  · rw [(refines_op op r s hrs).err_iff, (endsAs_op op s).overflow_iff]
    exact ⟨fun h => h.2, fun h => ⟨(needs_le_limit h.1).trans_eq h.2.symm, h⟩⟩
  · rw [(refines_op op r s hrs).err_iff, (endsAs_op op s).underflow_iff]
  · obtain ⟨s', hpush, hpop⟩ := sameForm_meaning hform hs
    obtain ⟨r', hpush', hr'⟩ := (refines_op _ r s hrs).exists_ok hpush
    obtain ⟨r'', hpop', hr''⟩ := (refines_op _ r' s' hr').exists_ok hpop
    exact ⟨r', r'', hpush', hpop', hr''⟩

/-- Three words are pushed, moved, stored and loaded, and popped in three layouts. -/
theorem raw_stack_refines_list_three :
    ∃ results r s,
      attempts StackOp.exec
        [.pushByte 7, .pushI256 (-1) (by decide), .pushUsize 5, .swap116 2 (by decide),
          .dup116 3 (by decide), .reload (List.replicate STACK_SIZE 9) List.length_replicate,
          .popUsize, .popU256, .popI256, .popAddress, .discard]
        (RawStack.new (List.replicate STACK_SIZE 1)) = some (results, r) ∧
      s.len < STACK_SIZE / 32 - 1 ∧ Represents r s := by
  obtain ⟨results, r, s, hraw, hlist, hrs, -⟩ := raw_stack_refines_list
    (List.length_replicate (n := STACK_SIZE) (a := (1 : UInt8)))
    [.pushByte 7, .pushI256 (-1) (by decide), .pushUsize 5, .swap116 2 (by decide),
      .dup116 3 (by decide), .reload (List.replicate STACK_SIZE 9) List.length_replicate,
      .popUsize, .popU256, .popI256, .popAddress, .discard]
  have hs : s = Stack.new := by
    have hrun := congrArg (Option.map Prod.snd) hlist
    exact (Option.some.inj hrun).symm
  exact ⟨results, r, s, hraw, hs ▸ by decide, hrs⟩

end NeonEvm
