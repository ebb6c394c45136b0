import Mathlib.Data.Nat.Size
import NeonEvm.Types.TransactionCodec

/-!
# Types/SignedMessage — a canonical transaction decodes to its fields and its signed message

    rlp = list (x₀ … xₙ rest)      message = list (x₀ … x₅, chain id, 0, 0) | 01, list (x₀ … x₇)

The message is cut out of the bytes of the transaction.  Its header and the item of the chain id are
built by hand, and are those of the encoding.
-/

namespace NeonEvm

open Exec Rlp RlpCrate

/-- The longest slice. -/
def ISIZE_MAX : ℕ := 2 ^ 63 - 1

theorem size_div_256 (n : ℕ) : (n / 256).size = n.size - 8 := by
  refine le_antisymm (Nat.size_le.2 ?_) (Nat.sub_le_iff_le_add.2 (Nat.size_le.2 ?_))
  · rcases Nat.lt_or_ge n.size 8 with h | h
    · have hn : n < 2 ^ 8 := Nat.size_le.1 h.le
      rw [Nat.div_eq_of_lt (show n < 256 from hn)]
      exact Nat.pow_pos (by decide)
    · rw [Nat.div_lt_iff_lt_mul (by decide)]
      calc n < 2 ^ n.size := Nat.lt_size_self n
        _ = 2 ^ (n.size - 8) * 256 := by
          rw [show 256 = 2 ^ 8 from rfl, ← Nat.pow_add, Nat.sub_add_cancel h]
  · rw [Nat.pow_add, ← Nat.div_lt_iff_lt_mul (by decide)]
    exact Nat.lt_size_self _

/-- **Without its leading empty bytes** a number is spelled by its own bytes. -/
theorem drop_leadingZeros {k n : ℕ} (h : n < 256 ^ k) :
    (toBeBytes k n).drop (leadingZeros (8 * k) n / 8) = minimalBytes n := by
  induction k generalizing n with
  | zero =>
    obtain rfl : n = 0 := by simpa using h
    rfl
  | succ k ih =>
    rcases Nat.eq_zero_or_pos n with rfl | hn
    · refine List.drop_eq_nil_of_le ?_
      rw [length_toBeBytes, leadingZeros, Nat.size_zero]
      omega
    · have hsize : 0 < n.size := Nat.size_pos.2 hn
      have hdiv : n / 256 < 256 ^ k := by
        rw [Nat.div_lt_iff_lt_mul (by decide), ← pow_succ]
        exact h
      have hskip : leadingZeros (8 * (k + 1)) n / 8 = leadingZeros (8 * k) (n / 256) / 8 := by
        rw [leadingZeros, leadingZeros, size_div_256]
        omega
      have hle : leadingZeros (8 * k) (n / 256) / 8 ≤ (toBeBytes k (n / 256)).length := by
        rw [length_toBeBytes, leadingZeros]
        omega
      rw [hskip, toBeBytes, List.drop_append_of_le_length hle, ih hdiv, ← minimalBytes_of_pos hn]

/-- **The header built by hand** is that of the list. -/
theorem signedHeader_eq {len : ℕ} (h : len < USIZE) : signedHeader len = header 0xc0 0xf7 len := by
  rcases Nat.lt_or_ge len 56 with hlen | hlen
  · rw [signedHeader, if_pos (by omega), Item.header_of_lt hlen]
  · rw [signedHeader, if_neg (by omega), Item.header_of_le hlen,
      drop_leadingZeros (k := 8) (h.trans_eq (by decide))]

/-- The items behind the fields of a legacy message. -/
def messageTail : Option U256 → List Bytes
  | none => []
  | some chainId => [encodeNat chainId.toNat, encodeNat 0, encodeNat 0]

/-- **The trailer built by hand** is the items of the chain id and of two zeros. -/
theorem signedTrailer_eq (chainId : Option U256) :
    signedTrailer chainId = pure (messageTail chainId).flatten := by
  rcases chainId with _ | c
  · rfl
  have hdrop : c.bytes.drop (leadingZeros 256 c.toNat / 8) = minimalBytes c.toNat :=
    drop_leadingZeros (k := 32) (c.isLt.trans_eq (by decide))
  have hlen := c.length_minimalBytes
  have htail : (messageTail (some c)).flatten = encodeBytes (minimalBytes c.toNat) ++ [0x80, 0x80] :=
    rfl
  rw [signedTrailer, hdrop, htail]
  match hbytes : minimalBytes c.toNat with
  | [] => rfl
  | [b] =>
    by_cases hlow : b < 0x80
    · rw [encodeBytes, if_pos hlow]
      exact (if_neg (by simp)).trans (if_pos ⟨rfl, hlow⟩)
    · rw [encodeBytes, if_neg hlow]
      exact (if_neg (by simp)).trans ((if_neg fun h => hlow h.2).trans (if_pos (by simp)))
  | b :: b' :: bs =>
    rw [hbytes] at hlen
    have hshort : (b :: b' :: bs).length < 56 := by omega
    have hbytes' : encodeBytes (b :: b' :: bs) =
        [UInt8.ofNat (0x80 + (b :: b' :: bs).length)] ++ (b :: b' :: bs) := by
      rw [← Item.header_of_lt hshort]
      rfl
    rw [hbytes']
    exact (if_neg (by simp)).trans ((if_neg (by simp)).trans (if_pos (by omega)))

/-! ## What the signed hash covers -/

section

variable [RlpCrate] [Lawful] {xs : List Bytes} {rest : Bytes}

theorem payloadInfo_bytes {i : Item} (h : i.bytes.length < USIZE) :
    payloadInfo i.bytes = .ok ⟨i.header.length, i.payload.length⟩ :=
  (Lawful.payloadInfo_iff h).2 ⟨i, [], (List.append_nil _).symm, rfl, rfl⟩

omit [RlpCrate] [Lawful] in
theorem sliceRaw_append (before middle after : Bytes) :
    sliceRaw (before ++ (middle ++ after)) before.length (before.length + middle.length) =
      pure middle := by
  rw [sliceRaw, if_pos ⟨Nat.le_add_right _ _, by simp⟩, Nat.add_sub_cancel_left,
    List.drop_left' rfl, List.take_left' rfl]

omit [RlpCrate] [Lawful] in
/-- **The first items of a list** are the bytes between its header and the item behind them. -/
theorem sliceRaw_flatten (n : ℕ) :
    sliceRaw (Item.list (xs.flatten ++ rest)).bytes (Item.list (xs.flatten ++ rest)).header.length
      ((Item.list (xs.flatten ++ rest)).header.length + (xs.take n).flatten.length) =
      pure (xs.take n).flatten := by
  have hsplit : (Item.list (xs.flatten ++ rest)).bytes = (Item.list (xs.flatten ++ rest)).header ++
      ((xs.take n).flatten ++ ((xs.drop n).flatten ++ rest)) := by
    rw [← List.append_assoc (xs.take n).flatten, ← List.flatten_append, List.take_append_drop]
    rfl
  rw [hsplit, sliceRaw_append]

omit [RlpCrate] [Lawful] in
theorem length_flatten_take_le (n : ℕ) :
    (xs.take n).flatten.length ≤ (Item.list (xs.flatten ++ rest)).bytes.length := by
  have hsplit := congrArg (fun l => l.flatten.length) (List.take_append_drop n xs)
  simp only [List.flatten_append, List.length_append] at hsplit
  simp only [Item.bytes, Item.payload, List.length_append]
  omega

omit [RlpCrate] [Lawful] in
theorem length_encodeBytes_le {bs : Bytes} (h : bs.length < 56) :
    (encodeBytes bs).length ≤ bs.length + 1 := by
  rw [← Item.bytes_ofBytes]
  unfold Item.ofBytes
  split
  · split <;> simp [Item.bytes, Item.header, Item.payload, header]
  · rw [Item.bytes, Item.header, Item.header_of_lt h]
    exact (List.length_append.trans (Nat.add_comm _ _)).le

omit [RlpCrate] [Lawful] in
theorem length_messageTail_le (chainId : Option U256) :
    (messageTail chainId).flatten.length ≤ 35 := by
  rcases chainId with _ | c
  · exact Nat.zero_le _
  have hlen := c.length_minimalBytes
  have htail : (messageTail (some c)).flatten = encodeBytes (minimalBytes c.toNat) ++ [0x80, 0x80] :=
    rfl
  have hitem : (encodeBytes (minimalBytes c.toNat)).length ≤ 33 :=
    (length_encodeBytes_le (by omega)).trans (Nat.succ_le_succ hlen)
  rw [htail, List.length_append]
  exact Nat.add_le_add_right hitem 2

variable [Platform]

/-- **A legacy signature** is over the first six items and the tail of the chain. -/
theorem calculateLegacySignature_eq (hxs : ∀ x ∈ xs, Whole x) (hn : 6 < xs.length)
    (hlen : (Item.list (xs.flatten ++ rest)).bytes.length ≤ ISIZE_MAX) (chainId : Option U256) :
    Transaction.calculateLegacySignature (Item.list (xs.flatten ++ rest)).bytes chainId =
      pure (keccak (encodeList (xs.take 6 ++ messageTail chainId))) := by
  have husize : (Item.list (xs.flatten ++ rest)).bytes.length < USIZE :=
    hlen.trans_lt (by decide)
  have hmessage : (xs.take 6).flatten.length + (messageTail chainId).flatten.length < USIZE := by
    have hfirst : (xs.take 6).flatten.length ≤ ISIZE_MAX := (length_flatten_take_le 6).trans hlen
    have htail := length_messageTail_le chainId
    exact (Nat.add_le_add hfirst htail).trans_lt (by decide)
  rw [Transaction.calculateLegacySignature, payloadInfo_bytes husize,
    atWithOffset_flatten hxs husize hn, signedTrailer_eq]
  funext s
  simp only [bind_run, Exec.ofExcept, pure_run, Outcome.ok_andThen, sliceRaw_flatten]
  rw [signedHeader_eq hmessage, encodeList, List.flatten_append, List.length_append,
    List.append_assoc]

/-- **A typed signature** is over the type and the list of the first items. -/
theorem eip2718SignedHash_eq (hxs : ∀ x ∈ xs, Whole x) {n : ℕ} (hn : n < xs.length)
    (hlen : (Item.list (xs.flatten ++ rest)).bytes.length ≤ ISIZE_MAX) (transactionType : Bytes) :
    Transaction.eip2718SignedHash transactionType (Item.list (xs.flatten ++ rest)).bytes n =
      pure (keccak (transactionType ++ encodeList (xs.take n))) := by
  have husize : (Item.list (xs.flatten ++ rest)).bytes.length < USIZE :=
    hlen.trans_lt (by decide)
  have hmessage : (xs.take n).flatten.length < USIZE :=
    (length_flatten_take_le n).trans_lt husize
  rw [Transaction.eip2718SignedHash, payloadInfo_bytes husize, atWithOffset_flatten hxs husize hn]
  funext s
  simp only [bind_run, Exec.ofExcept, pure_run, Outcome.ok_andThen, sliceRaw_flatten]
  rw [signedHeader_eq hmessage, encodeList, List.append_assoc]

end

/-! ## The encoding of a transaction -/

/-- The encoding of an entry of an access list. -/
def encodeEntry (entry : Address × List U256) : Bytes :=
  encodeList [encodeBytes entry.1.bytes, encodeList (entry.2.map fun key => encodeBytes key.bytes)]

/-- The encoding of an access list. -/
def encodeAccessList (entries : List (Address × List U256)) : Bytes :=
  encodeList (entries.map encodeEntry)

/-- The number `v` of a legacy signature. -/
def encodeV (chainId : Option U256) (recoveryId : UInt8) : ℕ :=
  match chainId with
  | none => 27 + recoveryId.toNat
  | some chainId => 35 + 2 * chainId.toNat + recoveryId.toNat

namespace LegacyTx

def encode (tx : LegacyTx) : Bytes := encodeList (tx.items (encodeBytes tx.callData.toList))

/-- The message that is signed: the six fields, with the chain if there is one. -/
def message (tx : LegacyTx) : Bytes :=
  encodeList ([encodeNat tx.nonce, encodeNat tx.gasPrice.toNat, encodeNat tx.gasLimit.toNat,
    encodeTarget tx.target, encodeNat tx.value.toNat, encodeBytes tx.callData.toList] ++
      messageTail tx.chainId)

/-- The nonce is a `u64`, the call data a slice, and `v` is made of the chain and the recovery
id. -/
structure WellFormed (tx : LegacyTx) : Prop where
  nonce_lt : tx.nonce < USIZE
  callData_eq : tx.callData = .fromSlice tx.callData.toList
  recoveryId_le : tx.recoveryId ≤ 1
  v_eq : tx.v.toNat = encodeV tx.chainId tx.recoveryId

end LegacyTx

namespace AccessListTx

def encode (tx : AccessListTx) : Bytes :=
  encodeList (tx.items (encodeBytes tx.callData.toList) (encodeAccessList tx.accessList))

/-- The message that is signed: the type and the first eight fields. -/
def message (tx : AccessListTx) : Bytes :=
  [0x01] ++ encodeList [encodeNat tx.chainId.toNat, encodeNat tx.nonce, encodeNat tx.gasPrice.toNat,
    encodeNat tx.gasLimit.toNat, encodeTarget tx.target, encodeNat tx.value.toNat,
    encodeBytes tx.callData.toList, encodeAccessList tx.accessList]

/-- The nonce is a `u64` and the call data a slice. -/
structure WellFormed (tx : AccessListTx) : Prop where
  nonce_lt : tx.nonce < USIZE
  callData_eq : tx.callData = .fromSlice tx.callData.toList

end AccessListTx

namespace TransactionPayload

/-- The encoding; a legacy transaction may be wrapped in the envelope of type 0. -/
def encode : TransactionPayload → (wrapped : Bool) → Bytes
  | legacy tx, false => tx.encode
  | legacy tx, true => 0x00 :: tx.encode
  | accessList tx, _ => 0x01 :: tx.encode

def message : TransactionPayload → Bytes
  | legacy tx => tx.message
  | accessList tx => tx.message

def WellFormed : TransactionPayload → Prop
  | legacy tx => tx.WellFormed
  | accessList tx => tx.WellFormed

end TransactionPayload

/-- **The chain and the recovery id are recovered** from `v`. -/
theorem recoverV_encodeV {v : U256} {chainId : Option U256} {recoveryId : UInt8}
    (hid : recoveryId ≤ 1) (hv : v.toNat = encodeV chainId recoveryId) :
    recoverV v = .ok (chainId, recoveryId) := by
  have hid' : recoveryId = 0 ∨ recoveryId = 1 := by
    have hle : recoveryId.toNat ≤ 1 := UInt8.le_iff_toNat_le.1 hid
    rcases Nat.le_one_iff_eq_zero_or_eq_one.1 hle with h | h
    · exact .inl (UInt8.toNat_inj.1 h)
    · exact .inr (UInt8.toNat_inj.1 h)
  rcases chainId with _ | c
  · rcases hid' with rfl | rfl
    · obtain rfl : v = 27 := BitVec.eq_of_toNat_eq hv
      rfl
    · obtain rfl : v = 28 := BitVec.eq_of_toNat_eq hv
      rfl
  · have hv' : v.toNat = 35 + 2 * c.toNat + recoveryId.toNat := hv
    have hid1 : recoveryId.toNat ≤ 1 := by rcases hid' with rfl | rfl <;> decide
    have hle : (35 : U256) ≤ v := BitVec.le_def.2 (show 35 ≤ v.toNat by omega)
    have hsub : (v - 1).toNat = v.toNat - 1 :=
      BitVec.toNat_sub_of_le (BitVec.le_def.2 (show 1 ≤ v.toNat by omega))
    have hdiv : ((v - 1) / 2).toNat = (v.toNat - 1) / 2 := by
      rw [BitVec.toNat_udiv, hsub]
      rfl
    have hchain : (v - 1) / 2 - 17 = c := by
      refine BitVec.eq_of_toNat_eq ?_
      have hle17 : (17 : U256) ≤ (v - 1) / 2 :=
        BitVec.le_def.2 (show 17 ≤ ((v - 1) / 2).toNat by omega)
      rw [BitVec.toNat_sub_of_le hle17, hdiv, hv']
      show (35 + 2 * c.toNat + recoveryId.toNat - 1) / 2 - 17 = c.toNat
      omega
    have hmod : (v % 2).toNat = recoveryId.toNat.succ % 2 := by
      rw [BitVec.toNat_umod, hv']
      show (35 + 2 * c.toNat + recoveryId.toNat) % 2 = recoveryId.toNat.succ % 2
      omega
    rw [recoverV, if_pos hle, hchain]
    rcases hid' with rfl | rfl
    · have hne : v % 2 ≠ 0 := fun h => by
        rw [h] at hmod
        exact absurd hmod (by decide)
      rw [if_neg hne]
      rfl
    · have heq : v % 2 = 0 := BitVec.eq_of_toNat_eq hmod
      rw [if_pos heq]
      rfl

/-! ## Decoding the encoding -/

theorem mapM_map_eq_ok {ε α β : Type} {f : α → Except ε β} {g : β → α} {bs : List β}
    (h : ∀ b ∈ bs, f (g b) = .ok b) : (bs.map g).mapM f = .ok bs := by
  induction bs with
  | nil => rfl
  | cons b bs ih =>
    rw [List.map_cons, List.mapM_cons, h b (by simp)]
    exact except_bind_eq_ok.2 ⟨b, rfl, except_bind_eq_ok.2
      ⟨bs, ih fun c hc => h c (by simp [hc]), rfl⟩⟩

theorem length_le_encodeList {xs : List Bytes} {x : Bytes} (h : x ∈ xs) :
    x.length ≤ (encodeList xs).length := by
  have hle : x.length ≤ xs.flatten.length := (List.sublist_flatten_of_mem h).length_le
  rw [encodeList, List.length_append]
  omega

theorem whole_map_encodeBytes {α : Type} {f : α → Bytes} {as : List α}
    (h : (encodeList (as.map fun a => encodeBytes (f a))).length < USIZE) :
    ∀ x ∈ as.map fun a => encodeBytes (f a), Whole x := by
  intro x hx
  have hlen := (length_le_encodeList hx).trans_lt h
  obtain ⟨a, -, rfl⟩ := List.mem_map.1 hx
  exact whole_encodeBytes hlen

section

variable [RlpCrate] [Lawful] {xs : List Bytes} {rest : Bytes}

theorem spellsData_encodeBytes {buffer : Buffer} (hbuffer : buffer = .fromSlice buffer.toList)
    (h : (encodeBytes buffer.toList).length < USIZE) :
    SpellsData (encodeBytes buffer.toList) buffer := by
  refine ⟨buffer.toList, ?_, hbuffer⟩
  rw [← Item.bytes_ofBytes] at h ⊢
  rw [Lawful.data_bytes h, Item.payload_ofBytes]

theorem isList_encodeList (h : (encodeList xs).length < USIZE) : isList (encodeList xs) = true :=
  isList_bytes (i := .list xs.flatten) h

/-- **An entry is read back.** -/
theorem decodeEntry_encodeEntry {entry : Address × List U256}
    (h : (encodeEntry entry).length < USIZE) : decodeEntry (encodeEntry entry) = .ok entry := by
  obtain ⟨address, keys⟩ := entry
  set keyList := encodeList (keys.map fun key => encodeBytes key.bytes) with hkeyList
  have hxs : encodeEntry (address, keys) = encodeList [encodeBytes address.bytes, keyList] := rfl
  rw [hxs] at h ⊢
  have haddress : Whole (encodeBytes address.bytes) :=
    whole_encodeBytes ((length_le_encodeList (by simp)).trans_lt h)
  have hkeys : keyList.length < USIZE := (length_le_encodeList (by simp)).trans_lt h
  have hwhole : ∀ x ∈ [encodeBytes address.bytes, keyList], Whole x := by
    intro x hx
    rcases List.mem_pair.1 hx with hx | hx
    · exact hx ▸ haddress
    · exact hx ▸ whole_encodeList hkeys
  have hread : (iter keyList).mapM StorageKey.decode = .ok keys := by
    rw [hkeyList, iter_encodeList (whole_map_encodeBytes hkeys) hkeys]
    exact mapM_map_eq_ok fun key hkey => (whole_map_encodeBytes hkeys _
      (List.mem_map_of_mem hkey)).storageKey_iff.2 rfl
  have hitem : ItemsAt (encodeList [encodeBytes address.bytes, keyList]) 0
      [encodeBytes address.bytes, keyList] :=
    itemsAt_iff.2 fun k hk => by rw [Nat.zero_add, itemAt_encodeList hwhole h hk]
  obtain ⟨h0, h1, -⟩ := hitem
  rw [decodeEntry, if_pos (isList_encodeList h)]
  exact except_bind_eq_ok.2 ⟨_, h0, except_bind_eq_ok.2 ⟨address, haddress.address_iff.2 rfl,
    except_bind_eq_ok.2 ⟨_, h1, except_bind_eq_ok.2 ⟨keys, hread, rfl⟩⟩⟩⟩

/-- **An access list is read back.** -/
theorem spells_encodeAccessList {entries : List (Address × List U256)}
    (h : (encodeAccessList entries).length < USIZE) :
    SpellsAccessList (encodeAccessList entries) entries := by
  have hentry : ∀ entry ∈ entries, (encodeEntry entry).length < USIZE := fun entry he =>
    (length_le_encodeList (List.mem_map_of_mem he)).trans_lt h
  have hwhole : ∀ x ∈ entries.map encodeEntry, Whole x := by
    intro x hx
    obtain ⟨entry, he, rfl⟩ := List.mem_map.1 hx
    exact whole_encodeList (hentry entry he)
  rw [SpellsAccessList, encodeAccessList, iter_encodeList hwhole h]
  exact mapM_map_eq_ok fun entry he => decodeEntry_encodeEntry (hentry entry he)

/-! ## The envelope -/

theorem getType_list {p : Bytes} (h : (Item.list p).bytes.length < USIZE) :
    TransactionEnvelope.getType (Item.list p).bytes = pure (none, (Item.list p).bytes) := by
  rw [TransactionEnvelope.getType, isList_bytes h]
  rfl

theorem isList_cons {b : UInt8} (hb : b < 0x80) (h : (b :: rest).length < USIZE) :
    isList (b :: rest) = false := Lawful.isList_append (i := .byte b hb) h

theorem getType_legacy (h : (0x00 :: rest).length < USIZE) :
    TransactionEnvelope.getType (0x00 :: rest) = pure (some .legacy, rest) := by
  rw [TransactionEnvelope.getType, isList_cons (by decide) h]
  rfl

theorem getType_accessList (h : (0x01 :: rest).length < USIZE) :
    TransactionEnvelope.getType (0x01 :: rest) = pure (some .accessList, rest) := by
  rw [TransactionEnvelope.getType, isList_cons (by decide) h]
  rfl

variable [Platform]

omit [Lawful] [Platform] in
theorem ofDecoding_pure {α : Type} (a : α) : ofDecoding (pure a) = pure a := rfl

omit [RlpCrate] [Lawful] [Platform] in
theorem length_bytes_list (p : Bytes) :
    (Item.list p).bytes.length = (Item.list p).header.length + (Item.list p).payload.length :=
  List.length_append

/-- **Decoding a legacy transaction**, bare or in its envelope. -/
theorem fromRlp_legacy {tx : LegacyTx} {c rlp bytes : Bytes} (hxs : ∀ x ∈ tx.items c, Whole x)
    (hrlp : rlp = (Item.list ((tx.items c).flatten ++ rest)).bytes)
    (hdecode : LegacyTx.decode rlp = .ok tx) (hbytes : bytes = rlp ∨ bytes = 0x00 :: rlp)
    (hlen : bytes.length ≤ ISIZE_MAX) :
    Transaction.fromRlp bytes () =
      .ok ⟨.legacy tx, bytes.length, keccak bytes,
        keccak (encodeList ((tx.items c).take 6 ++ messageTail tx.chainId))⟩ () := by
  have husize : bytes.length < USIZE := hlen.trans_lt (by decide)
  have hsignature : rlp.length ≤ ISIZE_MAX →
      Transaction.calculateLegacySignature rlp tx.chainId =
        pure (keccak (encodeList ((tx.items c).take 6 ++ messageTail tx.chainId))) := fun h => by
    rw [hrlp] at h ⊢
    exact calculateLegacySignature_eq hxs (show 6 < 9 by decide) h tx.chainId
  have hinfo : rlp.length < USIZE → payloadInfo rlp =
      .ok ⟨(Item.list ((tx.items c).flatten ++ rest)).header.length,
        (Item.list ((tx.items c).flatten ++ rest)).payload.length⟩ := fun h => by
    rw [hrlp] at h ⊢
    exact payloadInfo_bytes h
  rcases hbytes with rfl | rfl
  · have htype : TransactionEnvelope.getType bytes = pure (none, bytes) := by
      rw [hrlp] at husize ⊢
      exact getType_list husize
    rw [Transaction.fromRlp, htype]
    simp only [bind_run, pure_run, Outcome.ok_andThen, hdecode, Exec.ofExcept, ofDecoding_pure]
    rw [Transaction.fromPayload, Transaction.hashes, hsignature hlen, hinfo husize]
    rw [hrlp, length_bytes_list]
    rfl
  · have hle : rlp.length ≤ ISIZE_MAX := (Nat.le_succ _).trans hlen
    rw [Transaction.fromRlp, getType_legacy husize]
    simp only [bind_run, pure_run, Outcome.ok_andThen, hdecode, Exec.ofExcept, ofDecoding_pure]
    rw [Transaction.fromPayload, Transaction.hashes, hsignature hle, hinfo (hle.trans_lt (by decide)), List.length_cons]
    rw [hrlp, length_bytes_list]
    rfl

/-- **Decoding an access list transaction.** -/
theorem fromRlp_accessList {tx : AccessListTx} {c l rlp : Bytes} (hxs : ∀ x ∈ tx.items c l, Whole x)
    (hrlp : rlp = (Item.list ((tx.items c l).flatten ++ rest)).bytes)
    (hdecode : AccessListTx.decode rlp = .ok tx) (hlen : (0x01 :: rlp).length ≤ ISIZE_MAX) :
    Transaction.fromRlp (0x01 :: rlp) () =
      .ok ⟨.accessList tx, (0x01 :: rlp).length, keccak (0x01 :: rlp),
        keccak ([0x01] ++ encodeList ((tx.items c l).take 8))⟩ () := by
  have hle : rlp.length ≤ ISIZE_MAX := (Nat.le_succ _).trans hlen
  have hsignature := eip2718SignedHash_eq hxs (show 8 < 11 by decide) (hrlp ▸ hle) [0x01]
  have hinfo := payloadInfo_bytes ((hrlp ▸ hle).trans_lt (by decide))
  rw [← hrlp] at hsignature hinfo
  rw [Transaction.fromRlp, getType_accessList (hlen.trans_lt (by decide))]
  simp only [bind_run, pure_run, Outcome.ok_andThen, hdecode, Exec.ofExcept, ofDecoding_pure]
  rw [Transaction.fromPayload, Transaction.hashes, hsignature, hinfo, List.length_cons]
  rw [hrlp, length_bytes_list]
  rfl

/-! ## Canonical transactions -/

omit [RlpCrate] [Lawful] [Platform] in
theorem encodeTarget_eq (target : Option Address) : ∃ bs, encodeTarget target = encodeBytes bs := by
  rcases target with _ | a
  · exact ⟨[], rfl⟩
  · exact ⟨a.bytes, rfl⟩

omit [RlpCrate] [Lawful] [Platform] in
theorem whole_of_mem {x : Bytes} (hlen : (encodeList xs).length < USIZE) (hx : x ∈ xs)
    (h : ∃ bs, x = encodeBytes bs) : Whole x := by
  have hle := (length_le_encodeList hx).trans_lt hlen
  obtain ⟨bs, h⟩ := h
  rw [h] at hle ⊢
  exact whole_encodeBytes hle

omit [RlpCrate] [Lawful] [Platform] in
theorem LegacyTx.whole_items {tx : LegacyTx} {d : Bytes}
    (hlen : (encodeList (tx.items (encodeBytes d))).length < USIZE) :
    ∀ x ∈ tx.items (encodeBytes d), Whole x := by
  have htext : ∀ x ∈ tx.items (encodeBytes d), ∃ bs, x = encodeBytes bs := by
    simp only [items, List.forall_mem_cons]
    exact ⟨⟨_, rfl⟩, ⟨_, rfl⟩, ⟨_, rfl⟩, encodeTarget_eq _, ⟨_, rfl⟩, ⟨_, rfl⟩, ⟨_, rfl⟩, ⟨_, rfl⟩,
      ⟨_, rfl⟩, by simp⟩
  exact fun x hx => whole_of_mem hlen hx (htext x hx)

omit [RlpCrate] [Lawful] [Platform] in
theorem AccessListTx.whole_items {tx : AccessListTx} {d : Bytes}
    {entries : List (Address × List U256)}
    (hlen : (encodeList (tx.items (encodeBytes d) (encodeAccessList entries))).length < USIZE) :
    ∀ x ∈ tx.items (encodeBytes d) (encodeAccessList entries), Whole x := by
  have htext : ∀ x ∈ tx.items (encodeBytes d) (encodeAccessList entries),
      (∃ bs, x = encodeBytes bs) ∨ x = encodeAccessList entries := by
    simp only [items, List.forall_mem_cons]
    exact ⟨.inl ⟨_, rfl⟩, .inl ⟨_, rfl⟩, .inl ⟨_, rfl⟩, .inl ⟨_, rfl⟩, .inl (encodeTarget_eq _),
      .inl ⟨_, rfl⟩, .inl ⟨_, rfl⟩, .inr trivial, .inl ⟨_, rfl⟩, .inl ⟨_, rfl⟩, .inl ⟨_, rfl⟩, by simp⟩
  intro x hx
  have hle := (length_le_encodeList hx).trans_lt hlen
  rcases htext x hx with h | h
  · exact whole_of_mem hlen hx h
  · rw [h] at hle ⊢
    exact whole_encodeList hle

omit [Platform] in
/-- **A canonical legacy transaction is decoded.** -/
theorem LegacyTx.decode_encode {tx : LegacyTx} (h : tx.WellFormed)
    (hlen : tx.encode.length < USIZE) : LegacyTx.decode tx.encode = .ok tx := by
  have hxs := whole_items hlen
  have hdata : (encodeBytes tx.callData.toList).length < USIZE :=
    (length_le_encodeList (by simp [items])).trans_lt hlen
  refine (decode_eq_ok hlen).2 ⟨encodeBytes tx.callData.toList, [], hxs, ?_, ?_, h.nonce_lt,
    spellsData_encodeBytes h.callData_eq hdata, recoverV_encodeV h.recoveryId_le h.v_eq⟩
  · rw [List.append_nil]
    rfl
  · exact checkEnd_encodeList hxs hlen

omit [Platform] in
/-- **A canonical access list transaction is decoded.** -/
theorem AccessListTx.decode_encode {tx : AccessListTx} (h : tx.WellFormed)
    (hlen : tx.encode.length < USIZE) : AccessListTx.decode tx.encode = .ok tx := by
  have hxs := whole_items hlen
  have hdata : (encodeBytes tx.callData.toList).length < USIZE :=
    (length_le_encodeList (by simp [items])).trans_lt hlen
  have hlist : (encodeAccessList tx.accessList).length < USIZE :=
    (length_le_encodeList (by simp [items])).trans_lt hlen
  refine (decode_eq_ok hlen).2 ⟨encodeBytes tx.callData.toList, encodeAccessList tx.accessList, [],
    hxs, ?_, ?_, h.nonce_lt, spellsData_encodeBytes h.callData_eq hdata,
    spells_encodeAccessList hlist⟩
  · rw [List.append_nil]
    rfl
  · exact checkEnd_encodeList hxs hlen

/-- **Decoding recovers the fields and the signed message** of every canonical transaction, bare or
in an envelope. -/
theorem decoding_recovers (tx : TransactionPayload) (wrapped : Bool) (h : tx.WellFormed)
    (hlen : (tx.encode wrapped).length ≤ ISIZE_MAX) :
    Transaction.fromRlp (tx.encode wrapped) () =
      .ok { transaction := tx
            byteLen := (tx.encode wrapped).length
            hash := keccak (tx.encode wrapped)
            signedHash := keccak tx.message } () := by
  have husize : (tx.encode wrapped).length < USIZE := hlen.trans_lt (by decide)
  rcases tx with tx | tx
  · have hrlp : tx.encode =
        (Item.list ((tx.items (encodeBytes tx.callData.toList)).flatten ++ [])).bytes := by
      rw [List.append_nil]
      rfl
    rcases wrapped with _ | _
    · exact fromRlp_legacy (LegacyTx.whole_items husize) hrlp (LegacyTx.decode_encode h husize)
        (.inl rfl) hlen
    · have hle : tx.encode.length < USIZE := (Nat.lt_succ_self _).trans husize
      exact fromRlp_legacy (LegacyTx.whole_items hle) hrlp (LegacyTx.decode_encode h hle)
        (.inr rfl) hlen
  · have hle : tx.encode.length < USIZE := (Nat.lt_succ_self _).trans husize
    have hrlp : tx.encode = (Item.list ((tx.items (encodeBytes tx.callData.toList)
        (encodeAccessList tx.accessList)).flatten ++ [])).bytes := by
      rw [List.append_nil]
      rfl
    exact fromRlp_accessList (AccessListTx.whole_items hle) hrlp (AccessListTx.decode_encode h hle)
      hlen

end

/-- A call of a contract on chain 245. -/
def smallCall : LegacyTx where
  nonce := 7
  gasPrice := 0
  gasLimit := 0x5208
  target := some 0x1234
  value := 0x80
  callData := .owned [0x05]
  v := 525
  r := 1
  s := 2
  chainId := some 245
  recoveryId := 0

/-- It is read back. -/
theorem decoding_recovers_small :
    let _ := Platform.bare
    let _ := RlpCrate.reference
    Transaction.fromRlp ((TransactionPayload.legacy smallCall).encode false) () =
      .ok ⟨.legacy smallCall, smallCall.encode.length, keccak smallCall.encode,
        keccak smallCall.message⟩ () := by
  let _ := Platform.bare
  let _ := RlpCrate.reference
  have _ := RlpCrate.reference_lawful
  exact decoding_recovers (.legacy smallCall) false ⟨by decide, by decide, by decide, by decide⟩
    (by decide)

end NeonEvm
