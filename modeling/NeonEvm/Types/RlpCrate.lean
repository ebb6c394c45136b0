import NeonEvm.Types.RlpItem

/-!
# Types/RlpCrate — the functions of the `rlp` crate, and what they promise

The crate is a parameter.  `Lawful` is its promise: it finds items where a text has them and fails
where it has none, and it turns an item into a value only if the item is the value's encoding; its
`data` and `iter` look at the payload alone.  `reference` keeps the promise.
-/

namespace NeonEvm.Rlp

/-- `rlp::DecoderError`, as far as the program names its cases. -/
inductive DecoderError where
  | rlpExpectedToBeList
  | rlpExpectedToBeData
  | rlpIncorrectListLen
  | rlpInconsistentLengthAndData
  | rlpInvalidLength
  | rlpInvalidIndirection
  | rlpIsTooBig
  | other (text : String)
  deriving DecidableEq

/-- `rlp::PayloadInfo`. -/
structure PayloadInfo where
  headerLen : ℕ
  valueLen : ℕ
  deriving DecidableEq

end Rlp

open Rlp

/-- The functions of the `rlp` crate that the program calls. -/
class RlpCrate where
  /-- `Display for DecoderError`. -/
  display : DecoderError → String
  isList : Bytes → Bool
  isData : Bytes → Bool
  isEmpty : Bytes → Bool
  payloadInfo : Bytes → Except DecoderError PayloadInfo
  data : Bytes → Except DecoderError Bytes
  atWithOffset : Bytes → ℕ → Except DecoderError (Bytes × ℕ)
  iter : Bytes → List Bytes
  /-- The bytes that `BasicDecoder::decode_value` hands to its closure. -/
  decodeValue : Bytes → Except DecoderError Bytes
  /-- `u64::decode`. -/
  decodeU64 : Bytes → Except DecoderError ℕ
  /-- `u8::decode`. -/
  decodeU8 : Bytes → Except DecoderError UInt8

namespace RlpCrate

/-- `Rlp::at`. -/
def itemAt [RlpCrate] (rlp : Bytes) (index : ℕ) : Except DecoderError Bytes :=
  Prod.fst <$> atWithOffset rlp index

/-- **What the crate promises**, of texts as long as a slice can be. -/
class Lawful [RlpCrate] : Prop where
  payloadInfo_iff {bs : Bytes} {h v : ℕ} (hlen : bs.length < USIZE) :
    payloadInfo bs = .ok ⟨h, v⟩ ↔
      ∃ (i : Item) (rest : Bytes), bs = i.bytes ++ rest ∧ h = i.header.length ∧
        v = i.payload.length
  isList_append {i : Item} {rest : Bytes} (hlen : (i.bytes ++ rest).length < USIZE) :
    isList (i.bytes ++ rest) = i.isList
  isData_bytes {i : Item} (hlen : i.bytes.length < USIZE) : isData i.bytes = !i.isList
  isEmpty_bytes {i : Item} (hlen : i.bytes.length < USIZE) : isEmpty i.bytes = i.payload.isEmpty
  data_bytes {i : Item} (hlen : i.bytes.length < USIZE) : data i.bytes = .ok i.payload
  atWithOffset_iff {i : Item} {n offset : ℕ} {x : Bytes} (hlen : i.bytes.length < USIZE) :
    atWithOffset i.bytes n = .ok (x, offset) ↔
      ∃ p j start, i = .list p ∧ Item.Nth p n j start ∧ x = j.bytes ∧
        offset = i.header.length + start
  iter_getElem? {i : Item} {n : ℕ} (hlen : i.bytes.length < USIZE) :
    (iter i.bytes)[n]? = (itemAt i.bytes n).toOption
  decodeValue_iff {i : Item} {v : Bytes} (hlen : i.bytes.length < USIZE) :
    decodeValue i.bytes = .ok v ↔ i.bytes = encodeBytes v
  decodeU64_iff {i : Item} {n : ℕ} (hlen : i.bytes.length < USIZE) :
    decodeU64 i.bytes = .ok n ↔ n < USIZE ∧ i.bytes = encodeNat n
  decodeU8_iff {i : Item} {b : UInt8} (hlen : i.bytes.length < USIZE) :
    decodeU8 i.bytes = .ok b ↔ i.bytes = encodeNat b.toNat

/-- `is_list` of an item alone. -/
theorem isList_bytes [RlpCrate] [Lawful] {i : Item} (h : i.bytes.length < USIZE) :
    isList i.bytes = i.isList := by
  rw [← List.append_nil i.bytes] at h ⊢
  exact Lawful.isList_append h

/-! ## A crate that keeps the promise -/

/-- The item `n` of a text, and where it starts. -/
def nth? : ℕ → Bytes → Option (Item × ℕ)
  | 0, bs => (Item.front bs).map fun (i, _) => (i, 0)
  | n + 1, bs =>
    match Item.front bs with
    | some (i, rest) => (nth? n rest).map fun (j, start) => (j, i.bytes.length + start)
    | none => none

/-- The items of a text, up to the first that is malformed. -/
def itemsOf : (fuel : ℕ) → Bytes → List Item
  | 0, _ => []
  | fuel + 1, bs =>
    match Item.front bs with
    | some (i, rest) => i :: itemsOf fuel rest
    | none => []

/-- The bytes of a canonical byte string. -/
def canonical? (bs : Bytes) : Option Bytes :=
  match Item.front bs with
  | some (i, _) => if i = .ofBytes i.payload then some i.payload else none
  | none => none

/-- The number of a canonical byte string. -/
def canonicalNat? (size : ℕ) (bs : Bytes) : Option ℕ :=
  match canonical? bs with
  | some v => if v.head? ≠ some 0 ∧ ofBeBytes v < size then some (ofBeBytes v) else none
  | none => none

/-- The failure of the reference crate. -/
def malformed : DecoderError := .other "RlpIsTooShort"

/-- A decoder that keeps the promise. -/
@[reducible] def reference : RlpCrate where
  display _ := ""
  isList bs := bs.head?.any (0xc0 ≤ ·)
  isData bs := bs.head?.any (· < 0xc0)
  isEmpty bs := bs.head? = some 0x80 ∨ bs.head? = some 0xc0
  payloadInfo bs :=
    ((Item.front bs).map fun (i, _) => ⟨i.header.length, i.payload.length⟩).elim
      (.error malformed) .ok
  data bs := ((Item.front bs).map fun (i, _) => i.payload).elim (.error malformed) .ok
  atWithOffset bs n :=
    match Item.front bs with
    | some (.list p, _) =>
      ((nth? n p).map fun (j, start) => (j.bytes, (Item.list p).header.length + start)).elim
        (.error malformed) .ok
    | _ => .error .rlpExpectedToBeList
  iter bs :=
    match Item.front bs with
    | some (.list p, _) => (itemsOf p.length p).map Item.bytes
    | _ => []
  decodeValue bs := (canonical? bs).elim (.error malformed) .ok
  decodeU64 bs := (canonicalNat? USIZE bs).elim (.error malformed) .ok
  decodeU8 bs := ((canonicalNat? 256 bs).map UInt8.ofNat).elim (.error malformed) .ok

theorem nth?_iff {n start : ℕ} {bs : Bytes} {i : Item} (hlen : bs.length < USIZE) :
    nth? n bs = some (i, start) ↔ Item.Nth bs n i start := by
  constructor
  · intro h
    clear hlen
    induction n generalizing bs start with
    | zero =>
      obtain ⟨rest, hfront, rfl⟩ : ∃ rest, Item.front bs = some (i, rest) ∧ start = 0 := by
        simpa [nth?, eq_comm] using h
      exact ⟨[], rest, Item.eq_append_of_front hfront, rfl, rfl⟩
    | succ n ih =>
      rw [nth?] at h
      split at h
      · next j rest hfront =>
        obtain ⟨start', hnth, rfl⟩ : ∃ a, nth? n rest = some (i, a) ∧ start = j.bytes.length + a := by
          simpa [eq_comm] using h
        obtain ⟨before, rest', rfl, rfl, rfl⟩ := ih hnth
        refine ⟨j :: before, rest', ?_, rfl, by simp⟩
        simpa using Item.eq_append_of_front hfront
      · exact absurd h (by simp)
  · rintro ⟨before, rest, hbs, rfl, rfl⟩
    induction before generalizing bs with
    | nil =>
      have hfits := Item.fits_of_length hbs hlen
      rw [hbs]
      simp [nth?, Item.front_append hfits]
    | cons j before ih =>
      rw [Item.text_cons, List.append_assoc] at hbs
      have hfits := Item.fits_of_length hbs hlen
      have hle : (Item.text before ++ (i.bytes ++ rest)).length < USIZE := by
        refine lt_of_le_of_lt ?_ hlen
        rw [hbs]
        exact (List.suffix_append _ _).length_le
      rw [List.length_cons, nth?, hbs, Item.front_append hfits]
      simp only [ih hle rfl, Option.map_some, Item.text_cons, List.length_append]

theorem itemsOf_getElem? {fuel n : ℕ} {bs : Bytes} (h : bs.length ≤ fuel) :
    (itemsOf fuel bs)[n]? = (nth? n bs).map Prod.fst := by
  induction fuel generalizing bs n with
  | zero =>
    obtain rfl := List.length_eq_zero_iff.1 (Nat.le_zero.1 h)
    rcases n with _ | n <;> simp [itemsOf, nth?, Item.front]
  | succ fuel ih =>
    rw [itemsOf]
    rcases hfront : Item.front bs with _ | ⟨i, rest⟩
    · rcases n with _ | n <;> simp [nth?, hfront]
    · have hpos := i.length_bytes_pos
      have hlen := congrArg List.length (Item.eq_append_of_front hfront)
      rw [List.length_append] at hlen
      rcases n with _ | n
      · simp [nth?, hfront]
      · simp only [nth?, hfront, List.getElem?_cons_succ, Option.map_map]
        exact ih (by omega)

/-- **The first byte of an item** tells lists from byte strings, and the empty ones from the
others. -/
theorem exists_head {i : Item} (hi : i.Fits) (rest : Bytes) :
    ∃ b bs, i.bytes ++ rest = b :: bs ∧ (0xc0 ≤ b.toNat ↔ i.isList = true) ∧
      (b.toNat = 0x80 ∨ b.toNat = 0xc0 ↔ i.payload = []) := by
  rcases i with ⟨b, low⟩ | p | p
  · have hlow : b.toNat < 0x80 := UInt8.lt_iff_toNat_lt.1 low
    refine ⟨b, rest, rfl, ?_, ?_⟩
    · simp only [Item.isList, Bool.false_eq_true, iff_false]
      omega
    · simp only [Item.payload, List.cons_ne_nil, iff_false]
      omega
  all_goals
    have hle := Item.length_minimalBytes_le_eight hi
    rw [Item.payload] at hle
    rw [Item.bytes, Item.header, Item.payload, List.append_assoc]
    rcases Nat.lt_or_ge p.length 56 with hlen | hlen
    · refine ⟨_, _, by rw [Item.header_of_lt hlen]; rfl, ?_, ?_⟩
      · simp only [UInt8.toNat_ofNat', Item.isList, Bool.false_eq_true, iff_false, iff_true]
        omega
      · rw [UInt8.toNat_ofNat', ← List.length_eq_zero_iff]
        omega
    · have hpos := length_minimalBytes_pos (n := p.length) (by omega)
      refine ⟨_, _, by rw [Item.header_of_le hlen]; rfl, ?_, ?_⟩
      · simp only [UInt8.toNat_ofNat', Item.isList, Bool.false_eq_true, iff_false, iff_true]
        omega
      · rw [UInt8.toNat_ofNat', ← List.length_eq_zero_iff]
        omega

theorem canonical?_iff {i : Item} {v : Bytes} (hlen : i.bytes.length < USIZE) :
    canonical? i.bytes = some v ↔ i.bytes = encodeBytes v := by
  have hfits := Item.fits_of_length (List.append_nil _).symm hlen
  have hfront : Item.front i.bytes = some (i, []) := by
    simpa using Item.front_append hfits []
  rw [canonical?, hfront]
  dsimp only
  constructor
  · intro h
    split at h
    · next hi =>
      obtain rfl := Option.some.inj h
      rw [← Item.bytes_ofBytes, ← hi]
    · exact absurd h (by simp)
  · intro h
    rw [← Item.bytes_ofBytes] at h
    obtain rfl := Item.bytes_inj h hlen
    simp

theorem canonicalNat?_iff {i : Item} {size n : ℕ} (hlen : i.bytes.length < USIZE) :
    canonicalNat? size i.bytes = some n ↔ n < size ∧ i.bytes = encodeNat n := by
  have hiff := fun v => canonical?_iff (v := v) hlen
  constructor
  · intro h
    rw [canonicalNat?] at h
    split at h
    · next v hv =>
      split at h
      · next hc =>
        obtain rfl := Option.some.inj h
        rw [encodeNat, minimalBytes_ofBeBytes hc.1]
        exact ⟨hc.2, (hiff v).1 hv⟩
      · exact absurd h (by simp)
    · exact absurd h (by simp)
  · rintro ⟨hn, h⟩
    rw [canonicalNat?, (hiff _).2 h]
    simp [hn, head?_minimalBytes]

theorem elim_eq_ok {α : Type} {e : DecoderError} {o : Option α} {a : α} :
    o.elim (.error e) Except.ok = .ok a ↔ o = some a := by
  rcases o with _ | b <;> simp

theorem front_bytes {i : Item} (hlen : i.bytes.length < USIZE) :
    Item.front i.bytes = some (i, []) := by
  simpa using Item.front_append (Item.fits_of_length (List.append_nil _).symm hlen) []

/-- **The reference crate keeps the promise.** -/
theorem reference_lawful : @Lawful reference :=
  let _ := reference
  { payloadInfo_iff := by
      intro bs h v hlen
      refine elim_eq_ok.trans ?_
      rw [Option.map_eq_some_iff]
      constructor
      · rintro ⟨⟨i, rest⟩, hfront, hinfo⟩
        obtain ⟨rfl, rfl⟩ := by simpa using hinfo
        exact ⟨i, rest, Item.eq_append_of_front hfront, rfl, rfl⟩
      · rintro ⟨i, rest, rfl, rfl, rfl⟩
        exact ⟨(i, rest), Item.front_append (Item.fits_of_length rfl hlen) rest, rfl⟩
    isList_append := by
      intro i rest hlen
      obtain ⟨b, bs, hbs, hlist, -⟩ := exists_head (Item.fits_of_length rfl hlen) rest
      rw [hbs, Bool.eq_iff_iff, ← hlist]
      simp [isList, UInt8.le_iff_toNat_le]
    isData_bytes := by
      intro i hlen
      obtain ⟨b, bs, hbs, hlist, -⟩ :=
        exists_head (Item.fits_of_length (List.append_nil _).symm hlen) []
      rw [List.append_nil] at hbs
      rw [hbs, Bool.eq_iff_iff, Bool.not_eq_true', ← Bool.not_eq_true, ← hlist]
      simp [isData, UInt8.lt_iff_toNat_lt]
    isEmpty_bytes := by
      intro i hlen
      obtain ⟨b, bs, hbs, -, hempty⟩ :=
        exists_head (Item.fits_of_length (List.append_nil _).symm hlen) []
      rw [List.append_nil] at hbs
      rw [hbs, Bool.eq_iff_iff, List.isEmpty_iff, ← hempty]
      simp [isEmpty, ← UInt8.toNat_inj]
    data_bytes := by
      intro i hlen
      refine elim_eq_ok.2 ?_
      rw [front_bytes hlen]
      rfl
    atWithOffset_iff := by
      intro i n offset x hlen
      simp only [atWithOffset, front_bytes hlen]
      split
      · next p _ heq =>
        obtain ⟨rfl, rfl⟩ := by simpa using heq
        have hp : p.length < USIZE := Item.fits_of_length (List.append_nil _).symm hlen
        rw [elim_eq_ok, Option.map_eq_some_iff]
        constructor
        · rintro ⟨⟨j, start⟩, hnth, hx⟩
          obtain ⟨rfl, rfl⟩ := by simpa using hx
          exact ⟨p, j, start, rfl, (nth?_iff hp).1 hnth, rfl, rfl⟩
        · rintro ⟨p', j, start, hp', hnth, rfl, rfl⟩
          obtain rfl := Item.list.inj hp'
          exact ⟨(j, start), (nth?_iff hp).2 hnth, rfl⟩
      · next hne =>
        constructor
        · intro h
          exact absurd h (by simp)
        · rintro ⟨p, _, _, rfl, -⟩
          exact absurd rfl (hne p [])
    iter_getElem? := by
      intro i n hlen
      simp only [iter, itemAt, atWithOffset, front_bytes hlen]
      split
      · next p _ heq =>
        obtain ⟨rfl, rfl⟩ := by simpa using heq
        rw [List.getElem?_map, itemsOf_getElem? le_rfl]
        rcases nth? n p with _ | ⟨j, start⟩ <;> rfl
      · rfl
    decodeValue_iff := fun hlen => elim_eq_ok.trans (canonical?_iff hlen)
    decodeU64_iff := fun hlen => elim_eq_ok.trans (canonicalNat?_iff hlen)
    decodeU8_iff := by
      intro i b hlen
      refine elim_eq_ok.trans ?_
      rw [Option.map_eq_some_iff]
      constructor
      · rintro ⟨n, hn, rfl⟩
        obtain ⟨hsize, hbytes⟩ := (canonicalNat?_iff hlen).1 hn
        rw [hbytes, UInt8.toNat_ofNat', Nat.mod_eq_of_lt hsize]
      · intro h
        exact ⟨b.toNat, (canonicalNat?_iff hlen).2 ⟨b.toNat_lt, h⟩, UInt8.ofNat_toNat⟩ }

end RlpCrate

end NeonEvm
