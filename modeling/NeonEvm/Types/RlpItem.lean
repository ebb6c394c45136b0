import NeonEvm.Types.Rlp

/-!
# Types/RlpItem — the items of an RLP text, and why a text has one reading

    front (i.bytes ++ rest) = some (i, rest)

An item is a byte that stands for itself, or a header and a payload.  Its header says where it ends,
so no text starts with two items (`bytes_append_inj`) or splits into items in two ways
(`flatMap_bytes_inj`).
-/

namespace NeonEvm.Rlp

/-- An item: a byte that stands for itself, a byte string, or a list with the text of its items. -/
inductive Item where
  | byte (b : UInt8) (low : b < 0x80)
  | data (payload : Bytes)
  | list (payload : Bytes)
  deriving DecidableEq

namespace Item

def header : Item → Bytes
  | byte _ _ => []
  | data p => Rlp.header 0x80 0xb7 p.length
  | list p => Rlp.header 0xc0 0xf7 p.length

def payload : Item → Bytes
  | byte b _ => [b]
  | data p => p
  | list p => p

def bytes (i : Item) : Bytes := i.header ++ i.payload

def isList : Item → Bool
  | list _ => true
  | _ => false

/-- The payload's length is a `usize`. -/
def Fits (i : Item) : Prop := i.payload.length < USIZE

/-! ## The item at the front of a text -/

/-- An item whose payload is the next `len` bytes. -/
def takePayload (item : Bytes → Item) (len : ℕ) (bs : Bytes) : Option (Item × Bytes) :=
  if len ≤ bs.length then some (item (bs.take len), bs.drop len) else none

/-- An item whose payload follows the `size` bytes of its length. -/
def takeLong (item : Bytes → Item) (size : ℕ) (bs : Bytes) : Option (Item × Bytes) :=
  let len := ofBeBytes (bs.take size)
  if size ≤ bs.length ∧ bs.head? ≠ some 0 ∧ 56 ≤ len then takePayload item len (bs.drop size)
  else none

/-- The item at the front, and the text after it. -/
def front : Bytes → Option (Item × Bytes)
  | [] => none
  | b :: bs =>
    if low : b < 0x80 then some (byte b low, bs)
    else if b < 0xb8 then takePayload data (b.toNat - 0x80) bs
    else if b < 0xc0 then takeLong data (b.toNat - 0xb7) bs
    else if b < 0xf8 then takePayload list (b.toNat - 0xc0) bs
    else takeLong list (b.toNat - 0xf7) bs

theorem takePayload_append (item : Bytes → Item) (p rest : Bytes) :
    takePayload item p.length (p ++ rest) = some (item p, rest) := by simp [takePayload]

theorem takePayload_eq_some {item : Bytes → Item} {len : ℕ} {bs rest : Bytes} {i : Item}
    (h : takePayload item len bs = some (i, rest)) :
    ∃ p, i = item p ∧ p.length = len ∧ bs = p ++ rest := by
  unfold takePayload at h
  split at h
  · next hlen =>
    obtain ⟨rfl, rfl⟩ := by simpa using h
    exact ⟨_, rfl, List.length_take_of_le hlen, (List.take_append_drop _ _).symm⟩
  · exact absurd h (by simp)

theorem takeLong_append (item : Bytes → Item) {p : Bytes} (rest : Bytes) (hp : 56 ≤ p.length) :
    takeLong item (minimalBytes p.length).length (minimalBytes p.length ++ (p ++ rest)) =
      some (item p, rest) := by
  have hpos := length_minimalBytes_pos (n := p.length) (by omega)
  have hhead : (minimalBytes p.length ++ (p ++ rest)).head? ≠ some 0 := by
    rw [List.head?_append_of_ne_nil _ (List.ne_nil_of_length_pos hpos)]
    exact head?_minimalBytes _
  rw [takeLong, List.take_left' rfl, List.drop_left' rfl, ofBeBytes_minimalBytes]
  rw [if_pos ⟨by simp, hhead, hp⟩]
  exact takePayload_append item p rest

theorem takeLong_eq_some {item : Bytes → Item} {size : ℕ} {bs rest : Bytes} {i : Item}
    (h : takeLong item size bs = some (i, rest)) :
    ∃ p, i = item p ∧ 56 ≤ p.length ∧ (minimalBytes p.length).length = size ∧
      bs = minimalBytes p.length ++ (p ++ rest) := by
  simp only [takeLong] at h
  split at h
  · next hc =>
    obtain ⟨hsize, hhead, hlong⟩ := hc
    obtain ⟨p, rfl, hlen, hbs⟩ := takePayload_eq_some h
    have htake : (bs.take size).length = size := List.length_take_of_le hsize
    have hmin : minimalBytes p.length = bs.take size := by
      rw [hlen]
      refine minimalBytes_ofBeBytes fun h0 => ?_
      rcases bs with _ | ⟨b, bs⟩
      · simp at h0
      · rcases size with _ | n
        · simp at h0
        · exact hhead (by simpa using h0)
    refine ⟨p, rfl, hlen ▸ hlong, by rw [hmin, htake], ?_⟩
    rw [hmin, ← hbs, List.take_append_drop]
  · exact absurd h (by simp)

/-- The header of a short payload. -/
theorem header_of_lt {short long len : ℕ} (h : len < 56) :
    Rlp.header short long len = [UInt8.ofNat (short + len)] := if_pos h

/-- The header of a long payload. -/
theorem header_of_le {short long len : ℕ} (h : 56 ≤ len) :
    Rlp.header short long len =
      UInt8.ofNat (long + (minimalBytes len).length) :: minimalBytes len := if_neg (by omega)

theorem length_minimalBytes_le_eight {len : ℕ} (h : len < USIZE) :
    (minimalBytes len).length ≤ 8 := length_minimalBytes_le (h.trans_eq (by decide))

theorem front_cons {n : ℕ} (hn : 0x80 ≤ n) (hn' : n < 0x100) (bs : Bytes) :
    front (UInt8.ofNat n :: bs) =
      if n < 0xb8 then takePayload data (n - 0x80) bs
      else if n < 0xc0 then takeLong data (n - 0xb7) bs
      else if n < 0xf8 then takePayload list (n - 0xc0) bs
      else takeLong list (n - 0xf7) bs := by
  have hmod : n % 256 = n := Nat.mod_eq_of_lt hn'
  have hlow : ¬n < 0x80 := by omega
  simp [front, UInt8.lt_iff_toNat_lt, hmod, hlow]

/-- **The front of a text is read back.** -/
theorem front_append {i : Item} (hi : i.Fits) (rest : Bytes) :
    front (i.bytes ++ rest) = some (i, rest) := by
  rcases i with ⟨b, low⟩ | p | p
  · simp [bytes, header, payload, front, low]
  all_goals
    have hle := length_minimalBytes_le_eight hi
    rw [payload] at hle
    rw [bytes, header, payload, List.append_assoc]
  · rcases Nat.lt_or_ge p.length 56 with hlen | hlen
    · rw [header_of_lt hlen, List.singleton_append, front_cons (by omega) (by omega),
        if_pos (by omega), Nat.add_sub_cancel_left, takePayload_append]
    · have hpos := length_minimalBytes_pos (n := p.length) (by omega)
      rw [header_of_le hlen, List.cons_append, front_cons (by omega) (by omega),
        if_neg (by omega), if_pos (by omega), Nat.add_sub_cancel_left, takeLong_append _ _ hlen]
  · rcases Nat.lt_or_ge p.length 56 with hlen | hlen
    · rw [header_of_lt hlen, List.singleton_append, front_cons (by omega) (by omega),
        if_neg (by omega), if_neg (by omega), if_pos (by omega), Nat.add_sub_cancel_left,
        takePayload_append]
    · have hpos := length_minimalBytes_pos (n := p.length) (by omega)
      rw [header_of_le hlen, List.cons_append, front_cons (by omega) (by omega),
        if_neg (by omega), if_neg (by omega), if_neg (by omega), Nat.add_sub_cancel_left,
        takeLong_append _ _ hlen]

theorem eq_cons_of_toNat {b : UInt8} {n : ℕ} (h : b.toNat = n) (bs : Bytes) :
    b :: bs = UInt8.ofNat n :: bs := by rw [← h, UInt8.ofNat_toNat]

/-- **What is read is what the text starts with.** -/
theorem eq_append_of_front {bs rest : Bytes} {i : Item} (h : front bs = some (i, rest)) :
    bs = i.bytes ++ rest := by
  rcases bs with _ | ⟨b, bs⟩
  · exact absurd h (by simp [front])
  have hb := b.toNat_lt
  simp only [front, UInt8.lt_iff_toNat_lt] at h
  split at h
  · obtain ⟨rfl, rfl⟩ := by simpa using h
    rfl
  next hlow =>
  have hlow' : 0x80 ≤ b.toNat := Nat.le_of_not_lt hlow
  split at h
  · next hshort =>
    have hshort' : b.toNat < 0xb8 := hshort
    obtain ⟨p, rfl, hlen, rfl⟩ := takePayload_eq_some h
    rw [bytes, header, payload, header_of_lt (by omega), List.append_assoc]
    exact eq_cons_of_toNat (by omega) _
  next hshort =>
  have hshort' : 0xb8 ≤ b.toNat := Nat.le_of_not_lt hshort
  split at h
  · obtain ⟨p, rfl, hlong, hlen, rfl⟩ := takeLong_eq_some h
    rw [bytes, header, payload, header_of_le hlong, List.append_assoc]
    exact eq_cons_of_toNat (by omega) _
  next hlong =>
  have hlong' : 0xc0 ≤ b.toNat := Nat.le_of_not_lt hlong
  split at h
  · next hlist =>
    have hlist' : b.toNat < 0xf8 := hlist
    obtain ⟨p, rfl, hlen, rfl⟩ := takePayload_eq_some h
    rw [bytes, header, payload, header_of_lt (by omega), List.append_assoc]
    exact eq_cons_of_toNat (by omega) _
  next hlist =>
  have hlist' : 0xf8 ≤ b.toNat := Nat.le_of_not_lt hlist
  obtain ⟨p, rfl, hlong, hlen, rfl⟩ := takeLong_eq_some h
  rw [bytes, header, payload, header_of_le hlong, List.append_assoc]
  exact eq_cons_of_toNat (by omega) _

theorem length_bytes_pos (i : Item) : 0 < i.bytes.length := by
  rcases i with ⟨b, low⟩ | p | p
  · exact Nat.one_pos
  all_goals
    rw [bytes, header, Rlp.header]
    split <;> simp

theorem fits_of_length {i : Item} {bs rest : Bytes} (h : bs = i.bytes ++ rest)
    (hlen : bs.length < USIZE) : i.Fits := by
  have hle : i.payload.length ≤ bs.length := by
    simp only [h, bytes, List.length_append]
    omega
  exact hle.trans_lt hlen

/-- **A text starts with one item.** -/
theorem bytes_append_inj {i j : Item} {bs r s : Bytes} (hi : bs = i.bytes ++ r)
    (hj : bs = j.bytes ++ s) (hlen : bs.length < USIZE) : i = j ∧ r = s := by
  have hread := front_append (fits_of_length hi hlen) r
  rw [← hi, hj, front_append (fits_of_length hj hlen)] at hread
  obtain ⟨rfl, rfl⟩ := by simpa using hread
  exact ⟨rfl, rfl⟩

theorem bytes_inj {i j : Item} (h : i.bytes = j.bytes) (hlen : i.bytes.length < USIZE) : i = j :=
  (bytes_append_inj (List.append_nil _).symm (by rw [h, List.append_nil]) hlen).1

/-! ## The items of a text -/

/-- The text of a sequence of items. -/
def text (is : List Item) : Bytes := is.flatMap bytes

@[simp] theorem text_nil : text [] = [] := rfl

@[simp] theorem text_cons (i : Item) (is : List Item) : text (i :: is) = i.bytes ++ text is := rfl

@[simp] theorem text_append (is js : List Item) : text (is ++ js) = text is ++ text js := by
  simp [text]

/-- **A text starts with one sequence of `n` items.** -/
theorem text_append_inj {is js : List Item} {bs r s : Bytes} (hi : bs = text is ++ r)
    (hj : bs = text js ++ s) (hlen : bs.length < USIZE) (h : is.length = js.length) :
    is = js ∧ r = s := by
  induction is generalizing js bs with
  | nil =>
    obtain rfl := List.length_eq_zero_iff.1 h.symm
    exact ⟨rfl, hi.symm.trans hj⟩
  | cons i is ih =>
    rcases js with _ | ⟨j, js⟩
    · simp at h
    rw [text_cons, List.append_assoc] at hi hj
    obtain ⟨rfl, hrest⟩ := bytes_append_inj hi hj hlen
    have hle : (text is ++ r).length < USIZE := by
      refine lt_of_le_of_lt ?_ hlen
      simp [hi]
    obtain ⟨rfl, rfl⟩ := ih rfl hrest hle (by simpa using h)
    exact ⟨rfl, rfl⟩

/-- The item `n` of a text, and where it starts. -/
def Nth (bs : Bytes) (n : ℕ) (i : Item) (offset : ℕ) : Prop :=
  ∃ before rest, bs = text before ++ (i.bytes ++ rest) ∧ before.length = n ∧
    offset = (text before).length

/-- **An item of the front part** of a text is found where it is. -/
theorem nth_append {is : List Item} {n : ℕ} (hn : n < is.length) (rest : Bytes) :
    Nth (text is ++ rest) n is[n] (text (is.take n)).length := by
  have hsplit : is.take n ++ is[n] :: is.drop (n + 1) = is := by
    rw [← List.drop_eq_getElem_cons hn, List.take_append_drop]
  refine ⟨is.take n, text (is.drop (n + 1)) ++ rest, ?_, List.length_take_of_le hn.le, rfl⟩
  calc text is ++ rest = text (is.take n ++ is[n] :: is.drop (n + 1)) ++ rest := by rw [hsplit]
    _ = _ := by simp only [text_append, text_cons, List.append_assoc]

/-- **No item behind the last** is found. -/
theorem Nth.lt_length {is : List Item} {n start : ℕ} {j : Item} (h : Nth (text is) n j start)
    (hlen : (text is).length < USIZE) : n < is.length := by
  obtain ⟨before, rest, hbs, rfl, -⟩ := h
  by_contra hge
  have hsplit : text is = text (before.take is.length) ++
      (text (before.drop is.length) ++ (j.bytes ++ rest)) := by
    rw [← List.append_assoc, ← text_append, List.take_append_drop]
    exact hbs
  obtain ⟨-, hnil⟩ := text_append_inj (List.append_nil _).symm hsplit hlen
    (List.length_take_of_le (Nat.le_of_not_lt hge)).symm
  have hpos := j.length_bytes_pos
  have hzero := congrArg List.length hnil
  simp only [List.length_nil, List.length_append] at hzero
  omega

/-- **The first items of a text**, found one by one, are what it starts with. -/
theorem exists_text_of_nth {bs : Bytes} (hlen : bs.length < USIZE) (is : List Item)
    (h : ∀ n (hn : n < is.length), ∃ offset, Nth bs n is[n] offset) : ∃ rest, bs = text is ++ rest := by
  induction is using List.reverseRecOn with
  | nil => exact ⟨bs, rfl⟩
  | append_singleton is i ih =>
    obtain ⟨rest, hbs⟩ := ih fun n hn => by
      have hn' : n < (is ++ [i]).length := by simp; omega
      simpa [List.getElem_append_left hn] using h n hn'
    obtain ⟨offset, before, rest', hbs', hn, -⟩ := h is.length (by simp)
    rw [List.getElem_concat_length rfl] at hbs'
    obtain ⟨rfl, -⟩ := text_append_inj hbs hbs' hlen hn.symm
    exact ⟨rest', by simpa using hbs'⟩

/-! ## Canonical byte strings -/

/-- The canonical item of a byte string. -/
def ofBytes : Bytes → Item
  | [b] => if low : b < 0x80 then byte b low else data [b]
  | bs => data bs

@[simp] theorem bytes_ofBytes (bs : Bytes) : (ofBytes bs).bytes = encodeBytes bs := by
  match bs with
  | [] => rfl
  | [b] =>
    by_cases low : b < 0x80
    · simp [ofBytes, encodeBytes, bytes, header, payload, low]
    · simp [ofBytes, encodeBytes, bytes, header, payload, low]
  | _ :: _ :: _ => rfl

@[simp] theorem payload_ofBytes (bs : Bytes) : (ofBytes bs).payload = bs := by
  unfold ofBytes
  split
  · split <;> rfl
  · rfl

@[simp] theorem bytes_list (items : List Bytes) :
    (list items.flatten).bytes = encodeList items := rfl

end Item

end NeonEvm.Rlp
