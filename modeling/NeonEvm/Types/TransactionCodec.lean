import NeonEvm.Types.TransactionDecode

/-!
# Types/TransactionCodec — the items of a transaction and what the decoder makes of them

    decode rlp = ok tx   →   rlp = list (items of tx ++ rest)

Every scalar of a transaction is read from its one encoding.  Only the items of the call data and of
the access list, and what follows the last item, are not pinned down by the fields.
-/

namespace NeonEvm

open Exec Rlp RlpCrate

theorem except_some_eq_ok {ε α : Type} {x : Except ε α} {t : Option α} :
    some <$> x = .ok t ↔ ∃ a, x = .ok a ∧ t = some a := by
  rcases x with e | a
  · simp [Functor.map, Except.map]
  · simp [Functor.map, Except.map, eq_comm]

theorem toNat_ofBytes {bs : Bytes} (h : bs.length ≤ 32) :
    (U256.ofBytes bs).toNat = ofBeBytes bs := by
  rw [U256.ofBytes, BitVec.toNat_ofNat]
  refine Nat.mod_eq_of_lt ((ofBeBytes_lt bs).trans_le ?_)
  calc 256 ^ bs.length ≤ 256 ^ 32 := Nat.pow_le_pow_right (by decide) h
    _ = 2 ^ 256 := by decide

theorem U256.length_minimalBytes (v : U256) : (minimalBytes v.toNat).length ≤ 32 :=
  length_minimalBytes_le (v.isLt.trans_eq (by decide))

/-! ## One item -/

/-- One item, as long as a slice can be. -/
def Whole (x : Bytes) : Prop := ∃ i : Item, x = i.bytes ∧ x.length < USIZE

theorem whole_encodeBytes {bs : Bytes} (h : (encodeBytes bs).length < USIZE) :
    Whole (encodeBytes bs) := ⟨.ofBytes bs, (Item.bytes_ofBytes bs).symm, h⟩

theorem whole_encodeList {xs : List Bytes} (h : (encodeList xs).length < USIZE) :
    Whole (encodeList xs) := ⟨.list xs.flatten, rfl, h⟩

/-- The item of a target; the empty byte string for none. -/
def encodeTarget : Option Address → Bytes
  | none => encodeBytes []
  | some a => encodeBytes a.bytes

section

variable [RlpCrate] [Lawful] {x y rlp : Bytes} {n : ℕ}

theorem Whole.decodeValue_iff (hx : Whole x) {v : Bytes} :
    decodeValue x = .ok v ↔ x = encodeBytes v := by
  obtain ⟨i, rfl, hlen⟩ := hx
  exact Lawful.decodeValue_iff hlen

theorem Whole.decodeU64_iff (hx : Whole x) {v : ℕ} :
    decodeU64 x = .ok v ↔ v < USIZE ∧ x = encodeNat v := by
  obtain ⟨i, rfl, hlen⟩ := hx
  exact Lawful.decodeU64_iff hlen

theorem Whole.decodeU8_iff (hx : Whole x) {b : UInt8} :
    decodeU8 x = .ok b ↔ x = encodeNat b.toNat := by
  obtain ⟨i, rfl, hlen⟩ := hx
  exact Lawful.decodeU8_iff hlen

/-- **A word is read from its one encoding.** -/
theorem Whole.u256_iff (hx : Whole x) {v : U256} :
    u256 x = .ok v ↔ x = encodeNat v.toNat := by
  rw [u256, except_bind_eq_ok]
  constructor
  · rintro ⟨bs, hbs, h⟩
    split at h
    · exact absurd h (by simp [throw, throwThe, MonadExceptOf.throw])
    next hhead =>
    split at h
    · next hlen =>
      obtain rfl := Except.ok.inj h
      rw [toNat_ofBytes hlen, encodeNat, minimalBytes_ofBeBytes hhead]
      exact hx.decodeValue_iff.1 hbs
    · exact absurd h (by simp [throw, throwThe, MonadExceptOf.throw])
  · intro h
    refine ⟨_, hx.decodeValue_iff.2 h, ?_⟩
    rw [if_neg (head?_minimalBytes _), if_pos v.length_minimalBytes]
    refine congrArg Except.ok (BitVec.eq_of_toNat_eq ?_)
    rw [toNat_ofBytes v.length_minimalBytes, ofBeBytes_minimalBytes]

/-- **A storage key is read from its one encoding.** -/
theorem Whole.storageKey_iff (hx : Whole x) {k : U256} :
    StorageKey.decode x = .ok k ↔ x = encodeBytes k.bytes := by
  rw [StorageKey.decode, except_bind_eq_ok]
  constructor
  · rintro ⟨bs, hbs, h⟩
    split at h
    · next hlen =>
      obtain rfl := Except.ok.inj h
      rw [U256.bytes, toNat_ofBytes hlen.le, ← hlen, toBeBytes_ofBeBytes]
      exact hx.decodeValue_iff.1 hbs
    · exact absurd h (by simp [throw, throwThe, MonadExceptOf.throw])
  · intro h
    refine ⟨_, hx.decodeValue_iff.2 h, ?_⟩
    rw [if_pos k.length_bytes]
    refine congrArg Except.ok (BitVec.eq_of_toNat_eq ?_)
    rw [toNat_ofBytes k.length_bytes.le, U256.bytes, ofBeBytes_toBeBytes]
    exact Nat.mod_eq_of_lt (k.isLt.trans_eq (by decide))

/-- **An address is read from its one encoding.** -/
theorem Whole.address_iff (hx : Whole x) {a : Address} :
    Address.decode x = .ok a ↔ x = encodeBytes a.bytes := by
  have hlen20 : a.bytes.length = 20 := length_toBeBytes _ _
  rw [Address.decode, except_bind_eq_ok]
  constructor
  · rintro ⟨bs, hbs, h⟩
    split at h
    · next hlen =>
      obtain rfl := Except.ok.inj h
      have hlt : ofBeBytes bs < 2 ^ 160 := by
        refine (ofBeBytes_lt bs).trans_eq ?_
        rw [hlen]
        decide
      rw [Address.bytes, BitVec.toNat_ofNat, Nat.mod_eq_of_lt hlt, ← hlen, toBeBytes_ofBeBytes]
      exact hx.decodeValue_iff.1 hbs
    · exact absurd h (by simp [throw, throwThe, MonadExceptOf.throw])
  · intro h
    refine ⟨_, hx.decodeValue_iff.2 h, ?_⟩
    rw [if_pos hlen20]
    refine congrArg Except.ok (BitVec.eq_of_toNat_eq ?_)
    rw [Address.bytes, ofBeBytes_toBeBytes, BitVec.toNat_ofNat]
    rw [Nat.mod_eq_of_lt (show a.toNat < 256 ^ 20 from a.isLt.trans_eq (by decide))]
    exact Nat.mod_eq_of_lt a.isLt

/-- **A target is read from its one encoding.** -/
theorem Whole.target_iff (hx : Whole x) {t : Option Address} :
    decodeTarget x = .ok t ↔ x = encodeTarget t := by
  obtain ⟨i, hi, hlen⟩ := id hx
  have hread : ∀ bs, x = encodeBytes bs → i = .ofBytes bs := fun bs h =>
    Item.bytes_inj (by rw [← hi, h, Item.bytes_ofBytes]) (hi ▸ hlen)
  rw [decodeTarget, hi, Lawful.isEmpty_bytes (hi ▸ hlen), Lawful.isData_bytes (hi ▸ hlen), ← hi]
  constructor
  · intro h
    split at h
    · next hp =>
      rcases i with ⟨b, low⟩ | p | p
      · exact absurd hp (by simp [Item.payload])
      · obtain rfl := List.isEmpty_iff.1 hp
        obtain rfl := Except.ok.inj h
        exact hi
      · exact absurd h (by simp [Item.isList, throw, throwThe, MonadExceptOf.throw])
    · obtain ⟨a, ha, rfl⟩ := except_some_eq_ok.1 h
      rw [encodeTarget]
      exact hx.address_iff.1 ha
  · intro h
    rcases t with _ | a <;> rw [encodeTarget] at h
    · obtain rfl := hread [] h
      rfl
    · have hne : a.bytes.isEmpty = false := by
        rw [List.isEmpty_eq_false_iff_exists_mem, ← List.length_pos_iff_exists_mem, Address.bytes,
          length_toBeBytes]
        decide
      have hp : i.payload = a.bytes := by rw [hread _ h, Item.payload_ofBytes]
      rw [hp, hne, if_neg (by decide)]
      exact except_some_eq_ok.2 ⟨a, hx.address_iff.2 h, rfl⟩

/-! ## The items of a list -/

omit [Lawful] in
theorem itemAt_eq_ok : itemAt rlp n = .ok x ↔ ∃ offset, atWithOffset rlp n = .ok (x, offset) := by
  rw [itemAt]
  rcases atWithOffset rlp n with e | ⟨y, offset⟩
  · simp [Functor.map, Except.map]
  · simp [Functor.map, Except.map]

/-- **An item of a list is one item**, the one that is there. -/
theorem Whole.of_itemAt (hrlp : Whole rlp) (h : itemAt rlp n = .ok x) :
    Whole x ∧ ∃ p j start, rlp = (Item.list p).bytes ∧ Item.Nth p n j start ∧ x = j.bytes := by
  obtain ⟨i, rfl, hlen⟩ := hrlp
  obtain ⟨offset, hat⟩ := itemAt_eq_ok.1 h
  obtain ⟨p, j, start, rfl, hnth, rfl, -⟩ := (Lawful.atWithOffset_iff hlen).1 hat
  refine ⟨⟨j, rfl, ?_⟩, p, j, start, rfl, hnth, rfl⟩
  obtain ⟨before, rest, hp, -, -⟩ := hnth
  refine lt_of_le_of_lt ?_ hlen
  simp only [Item.bytes, Item.payload, hp, List.length_append]
  omega

omit [RlpCrate] [Lawful] in
theorem exists_items {xs : List Bytes} (h : ∀ x ∈ xs, Whole x) :
    ∃ is : List Item, xs = is.map Item.bytes := by
  induction xs with
  | nil => exact ⟨[], rfl⟩
  | cons x xs ih =>
    obtain ⟨i, hi, -⟩ := h x (by simp)
    obtain ⟨is, his⟩ := ih fun y hy => h y (by simp [hy])
    exact ⟨i :: is, by rw [hi, his, List.map_cons]⟩

omit [RlpCrate] [Lawful] in
theorem flatten_map_bytes (is : List Item) : (is.map Item.bytes).flatten = Item.text is := by
  rw [Item.text, List.flatMap_def]

omit [RlpCrate] [Lawful] in
theorem length_payload_lt {p : Bytes} (h : (Item.list p).bytes.length < USIZE) :
    p.length < USIZE := Item.fits_of_length (List.append_nil _).symm h

/-- `xs` are the items of a list from `index` on. -/
def ItemsAt (rlp : Bytes) : (index : ℕ) → List Bytes → Prop
  | _, [] => True
  | index, x :: xs => itemAt rlp index = .ok x ∧ ItemsAt rlp (index + 1) xs

omit [Lawful] in
theorem itemsAt_iff {xs : List Bytes} :
    ItemsAt rlp n xs ↔ ∀ k (hk : k < xs.length), itemAt rlp (n + k) = .ok xs[k] := by
  induction xs generalizing n with
  | nil => simp [ItemsAt]
  | cons x xs ih =>
    rw [ItemsAt, ih]
    constructor
    · rintro ⟨hx, hxs⟩ k hk
      rcases k with _ | k
      · exact hx
      · rw [← Nat.add_assoc, Nat.add_right_comm]
        exact hxs k (by simpa using hk)
    · intro h
      refine ⟨h 0 (by simp), fun k hk => ?_⟩
      have hk' := h (k + 1) (by simpa using hk)
      rwa [← Nat.add_assoc, Nat.add_right_comm] at hk'

/-- **The items of a list, read one by one**, are what the list starts with. -/
theorem Whole.exists_flatten (hrlp : Whole rlp) (xs : List Bytes) (hne : 0 < xs.length)
    (hread : ItemsAt rlp 0 xs) :
    (∀ x ∈ xs, Whole x) ∧ ∃ rest, rlp = (Item.list (xs.flatten ++ rest)).bytes := by
  have h : ∀ n (hn : n < xs.length), itemAt rlp n = .ok xs[n] := fun n hn => by
    simpa using itemsAt_iff.1 hread n hn
  have hxs : ∀ x ∈ xs, Whole x := by
    intro x hx
    obtain ⟨n, hn, rfl⟩ := List.getElem_of_mem hx
    exact (hrlp.of_itemAt (h n hn)).1
  obtain ⟨is, rfl⟩ := exists_items hxs
  obtain ⟨-, p, -, -, rfl, -, -⟩ := hrlp.of_itemAt (h 0 hne)
  obtain ⟨-, -, hlen⟩ := id hrlp
  have hp := length_payload_lt hlen
  obtain ⟨rest, rfl⟩ := Item.exists_text_of_nth hp is fun n hn => by
    have hn' : n < (is.map Item.bytes).length := by simpa using hn
    obtain ⟨hw, p', j, start, hp', hnth, hj⟩ := hrlp.of_itemAt (h n hn')
    obtain rfl := Item.list.inj (Item.bytes_inj hp' hlen)
    rw [List.getElem_map] at hj hw
    obtain ⟨-, -, hw⟩ := hw
    exact ⟨start, Item.bytes_inj hj hw ▸ hnth⟩
  exact ⟨hxs, rest, by rw [flatten_map_bytes]⟩

/-- **An item of the front part of a list** is read where it is. -/
theorem atWithOffset_flatten {xs : List Bytes} {rest : Bytes} (hxs : ∀ x ∈ xs, Whole x)
    (hlen : (Item.list (xs.flatten ++ rest)).bytes.length < USIZE) (hn : n < xs.length) :
    atWithOffset (Item.list (xs.flatten ++ rest)).bytes n =
      .ok (xs[n], (Item.list (xs.flatten ++ rest)).header.length + (xs.take n).flatten.length) := by
  obtain ⟨is, rfl⟩ := exists_items hxs
  rw [List.length_map] at hn
  refine (Lawful.atWithOffset_iff hlen).2 ⟨_, is[n], _, rfl, ?_, List.getElem_map _, rfl⟩
  rw [← List.map_take, flatten_map_bytes, flatten_map_bytes]
  exact Item.nth_append hn rest

theorem itemAt_flatten {xs : List Bytes} {rest : Bytes} (hxs : ∀ x ∈ xs, Whole x)
    (hlen : (Item.list (xs.flatten ++ rest)).bytes.length < USIZE) (hn : n < xs.length) :
    itemAt (Item.list (xs.flatten ++ rest)).bytes n = .ok xs[n] :=
  itemAt_eq_ok.2 ⟨_, atWithOffset_flatten hxs hlen hn⟩

theorem itemsAt_flatten {xs : List Bytes} {rest : Bytes} (hxs : ∀ x ∈ xs, Whole x)
    (hlen : (Item.list (xs.flatten ++ rest)).bytes.length < USIZE) :
    ItemsAt (Item.list (xs.flatten ++ rest)).bytes 0 xs :=
  itemsAt_iff.2 fun k hk => by rw [Nat.zero_add, itemAt_flatten hxs hlen hk]

theorem itemAt_encodeList {xs : List Bytes} (hxs : ∀ x ∈ xs, Whole x)
    (hlen : (encodeList xs).length < USIZE) (hn : n < xs.length) :
    itemAt (encodeList xs) n = .ok xs[n] := by
  have hnil : encodeList xs = (Item.list (xs.flatten ++ [])).bytes := by rw [List.append_nil]; rfl
  rw [hnil] at hlen ⊢
  exact itemAt_flatten hxs hlen hn

/-- **Nothing is read behind the last item** of a list that ends there. -/
theorem itemAt_encodeList_of_le {xs : List Bytes} (hxs : ∀ x ∈ xs, Whole x)
    (hlen : (encodeList xs).length < USIZE) (hn : xs.length ≤ n) :
    (itemAt (encodeList xs) n).toOption = none := by
  obtain ⟨is, rfl⟩ := exists_items hxs
  rcases hat : itemAt (encodeList (is.map Item.bytes)) n with e | y
  · rfl
  · obtain ⟨-, p, j, start, hp, hnth, -⟩ := (whole_encodeList hlen).of_itemAt hat
    obtain rfl := Item.list.inj (Item.bytes_inj hp hlen)
    rw [flatten_map_bytes] at hnth
    have hlt := hnth.lt_length (by rw [← flatten_map_bytes]; exact length_payload_lt hlen)
    rw [List.length_map] at hn
    omega

/-- **The items of a list** are what it is made of. -/
theorem iter_encodeList {xs : List Bytes} (hxs : ∀ x ∈ xs, Whole x)
    (hlen : (encodeList xs).length < USIZE) : iter (encodeList xs) = xs := by
  refine List.ext_getElem? fun n => ?_
  rw [← Item.bytes_list] at hlen ⊢
  rw [Lawful.iter_getElem? hlen, Item.bytes_list]
  rcases Nat.lt_or_ge n xs.length with hn | hn
  · rw [itemAt_encodeList hxs hlen hn, List.getElem?_eq_getElem hn]
    rfl
  · rw [itemAt_encodeList_of_le hxs hlen hn, List.getElem?_eq_none hn]

theorem checkEnd_encodeList {xs : List Bytes} (hxs : ∀ x ∈ xs, Whole x)
    (hlen : (encodeList xs).length < USIZE) : checkEnd (encodeList xs) xs.length = .ok () := by
  have h := itemAt_encodeList_of_le hxs hlen le_rfl
  rw [checkEnd]
  rcases hat : itemAt (encodeList xs) xs.length with e | y
  · rfl
  · rw [hat] at h
    exact absurd h (by simp [Except.toOption])

/-- **The text is one item**, and no more. -/
theorem checkLength_iff (hlen : rlp.length < USIZE) : checkLength rlp = .ok () ↔ Whole rlp := by
  rw [checkLength, except_bind_eq_ok]
  constructor
  · rintro ⟨⟨h, v⟩, hinfo, hcheck⟩
    obtain ⟨i, rest, rfl, rfl, rfl⟩ := (Lawful.payloadInfo_iff hlen).1 hinfo
    split at hcheck
    · exact absurd hcheck (by simp [throw, throwThe, MonadExceptOf.throw])
    · next heq =>
      obtain rfl : rest = [] := by
        refine List.length_eq_zero_iff.1 ?_
        simp only [ne_eq, not_not, Item.bytes, List.length_append] at heq
        omega
      exact ⟨i, List.append_nil _, hlen⟩
  · rintro ⟨i, rfl, -⟩
    refine ⟨_, (Lawful.payloadInfo_iff hlen).2 ⟨i, [], (List.append_nil _).symm, rfl, rfl⟩, ?_⟩
    rw [if_neg (by simp [Item.bytes])]
    rfl

/-! ## The items of a transaction -/

end

/-- The items of a legacy transaction, its call data spelled as `callData`. -/
def LegacyTx.items (tx : LegacyTx) (callData : Bytes) : List Bytes :=
  [encodeNat tx.nonce, encodeNat tx.gasPrice.toNat, encodeNat tx.gasLimit.toNat,
    encodeTarget tx.target, encodeNat tx.value.toNat, callData, encodeNat tx.v.toNat,
    encodeNat tx.r.toNat, encodeNat tx.s.toNat]

/-- The items of an access list transaction, its call data and its access list spelled as given. -/
def AccessListTx.items (tx : AccessListTx) (callData accessList : Bytes) : List Bytes :=
  [encodeNat tx.chainId.toNat, encodeNat tx.nonce, encodeNat tx.gasPrice.toNat,
    encodeNat tx.gasLimit.toNat, encodeTarget tx.target, encodeNat tx.value.toNat, callData,
    accessList, encodeNat tx.recoveryId.toNat, encodeNat tx.r.toNat, encodeNat tx.s.toNat]

section

variable [RlpCrate]

/-- `callData` is an item that the decoder reads as `buffer`. -/
def SpellsData (callData : Bytes) (buffer : Buffer) : Prop :=
  ∃ bs, data callData = .ok bs ∧ buffer = .fromSlice bs

/-- `accessList` is an item that the decoder reads as `entries`. -/
def SpellsAccessList (accessList : Bytes) (entries : List (Address × List U256)) : Prop :=
  (iter accessList).mapM decodeEntry = .ok entries

variable [Lawful] {rlp : Bytes}

/-- **A legacy transaction is a list of its items**, with whatever the decoder takes for the end. -/
theorem LegacyTx.decode_eq_ok (hlen : rlp.length < USIZE) {tx : LegacyTx} :
    LegacyTx.decode rlp = .ok tx ↔ ∃ c rest, (∀ x ∈ tx.items c, Whole x) ∧
      rlp = (Item.list ((tx.items c).flatten ++ rest)).bytes ∧ checkEnd rlp 9 = .ok () ∧
      tx.nonce < USIZE ∧ SpellsData c tx.callData ∧
      recoverV tx.v = .ok (tx.chainId, tx.recoveryId) := by
  simp only [decode, except_bind_eq_ok]
  constructor
  · rintro ⟨_, hwhole, x0, h0, nonce, hnonce, x1, h1, gasPrice, hgasPrice, x2, h2, gasLimit,
      hgasLimit, x3, h3, target, htarget, x4, h4, value, hvalue, c, h5, d, hd, x6, h6, v, hv, x7,
      h7, r, hr, x8, h8, s, hs, _, hend, ⟨chainId, recoveryId⟩, hrec, htx⟩
    obtain rfl := Except.ok.inj htx
    have hrlp := (checkLength_iff hlen).1 hwhole
    have hw : ∀ {n x}, itemAt rlp n = .ok x → Whole x := fun h => (hrlp.of_itemAt h).1
    obtain ⟨hnonce64, rfl⟩ := (hw h0).decodeU64_iff.1 hnonce
    obtain rfl := (hw h1).u256_iff.1 hgasPrice
    obtain rfl := (hw h2).u256_iff.1 hgasLimit
    obtain rfl := (hw h3).target_iff.1 htarget
    obtain rfl := (hw h4).u256_iff.1 hvalue
    obtain rfl := (hw h6).u256_iff.1 hv
    obtain rfl := (hw h7).u256_iff.1 hr
    obtain rfl := (hw h8).u256_iff.1 hs
    obtain ⟨hxs, rest, hlist⟩ := hrlp.exists_flatten
      (LegacyTx.items ⟨nonce, gasPrice, gasLimit, target, value, .fromSlice d, v, r, s, chainId,
        recoveryId⟩ c) (Nat.succ_pos 8) ⟨h0, h1, h2, h3, h4, h5, h6, h7, h8, trivial⟩
    exact ⟨c, rest, hxs, hlist, hend, hnonce64, ⟨d, hd, rfl⟩, hrec⟩
  · rintro ⟨c, rest, hxs, hlist, hend, hnonce, ⟨d, hd, hdata⟩, hrec⟩
    have hwhole : Whole rlp := ⟨_, hlist, hlen⟩
    have hread := itemsAt_flatten hxs (hlist ▸ hlen)
    rw [← hlist] at hread
    obtain ⟨h0, h1, h2, h3, h4, h5, h6, h7, h8, -⟩ := hread
    have hw : ∀ {n x}, itemAt rlp n = .ok x → Whole x := fun h => (hwhole.of_itemAt h).1
    refine ⟨(), (checkLength_iff hlen).2 hwhole, _, h0, _, (hw h0).decodeU64_iff.2 ⟨hnonce, rfl⟩,
      _, h1, _, (hw h1).u256_iff.2 rfl, _, h2, _, (hw h2).u256_iff.2 rfl, _, h3, _,
      (hw h3).target_iff.2 rfl, _, h4, _, (hw h4).u256_iff.2 rfl, _, h5, _, hd, _, h6, _,
      (hw h6).u256_iff.2 rfl, _, h7, _, (hw h7).u256_iff.2 rfl, _, h8, _, (hw h8).u256_iff.2 rfl,
      (), hend, _, hrec, ?_⟩
    rw [← hdata]
    rfl

/-- **An access list transaction is a list of its items**, with whatever the decoder takes for the
end. -/
theorem AccessListTx.decode_eq_ok (hlen : rlp.length < USIZE) {tx : AccessListTx} :
    AccessListTx.decode rlp = .ok tx ↔ ∃ c l rest, (∀ x ∈ tx.items c l, Whole x) ∧
      rlp = (Item.list ((tx.items c l).flatten ++ rest)).bytes ∧ checkEnd rlp 11 = .ok () ∧
      tx.nonce < USIZE ∧ SpellsData c tx.callData ∧ SpellsAccessList l tx.accessList := by
  simp only [decode, except_bind_eq_ok]
  constructor
  · rintro ⟨_, hwhole, x0, h0, chainId, hchainId, x1, h1, nonce, hnonce, x2, h2, gasPrice,
      hgasPrice, x3, h3, gasLimit, hgasLimit, x4, h4, target, htarget, x5, h5, value, hvalue, c,
      h6, d, hd, l, h7, accessList, haccess, x8, h8, yParity, hparity, x9, h9, r, hr, x10, h10, s,
      hs, _, hend, htx⟩
    obtain rfl := Except.ok.inj htx
    have hrlp := (checkLength_iff hlen).1 hwhole
    have hw : ∀ {n x}, itemAt rlp n = .ok x → Whole x := fun h => (hrlp.of_itemAt h).1
    obtain rfl := (hw h0).u256_iff.1 hchainId
    obtain ⟨hnonce64, rfl⟩ := (hw h1).decodeU64_iff.1 hnonce
    obtain rfl := (hw h2).u256_iff.1 hgasPrice
    obtain rfl := (hw h3).u256_iff.1 hgasLimit
    obtain rfl := (hw h4).target_iff.1 htarget
    obtain rfl := (hw h5).u256_iff.1 hvalue
    obtain rfl := (hw h8).decodeU8_iff.1 hparity
    obtain rfl := (hw h9).u256_iff.1 hr
    obtain rfl := (hw h10).u256_iff.1 hs
    obtain ⟨hxs, rest, hlist⟩ := hrlp.exists_flatten
      (AccessListTx.items ⟨nonce, gasPrice, gasLimit, target, value, .fromSlice d, r, s, chainId,
        yParity, accessList⟩ c l) (Nat.succ_pos 10)
      ⟨h0, h1, h2, h3, h4, h5, h6, h7, h8, h9, h10, trivial⟩
    exact ⟨c, l, rest, hxs, hlist, hend, hnonce64, ⟨d, hd, rfl⟩, haccess⟩
  · rintro ⟨c, l, rest, hxs, hlist, hend, hnonce, ⟨d, hd, hdata⟩, haccess⟩
    have hwhole : Whole rlp := ⟨_, hlist, hlen⟩
    have hread := itemsAt_flatten hxs (hlist ▸ hlen)
    rw [← hlist] at hread
    obtain ⟨h0, h1, h2, h3, h4, h5, h6, h7, h8, h9, h10, -⟩ := hread
    have hw : ∀ {n x}, itemAt rlp n = .ok x → Whole x := fun h => (hwhole.of_itemAt h).1
    refine ⟨(), (checkLength_iff hlen).2 hwhole, _, h0, _, (hw h0).u256_iff.2 rfl, _, h1, _,
      (hw h1).decodeU64_iff.2 ⟨hnonce, rfl⟩, _, h2, _, (hw h2).u256_iff.2 rfl, _, h3, _,
      (hw h3).u256_iff.2 rfl, _, h4, _, (hw h4).target_iff.2 rfl, _, h5, _,
      (hw h5).u256_iff.2 rfl, _, h6, _, hd, _, h7, _, haccess, _, h8, _,
      (hw h8).decodeU8_iff.2 rfl, _, h9, _, (hw h9).u256_iff.2 rfl, _, h10, _,
      (hw h10).u256_iff.2 rfl, (), hend, ?_⟩
    rw [← hdata]
    rfl

end

end NeonEvm
