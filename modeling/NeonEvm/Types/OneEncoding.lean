import NeonEvm.Types.SignedMessage

/-!
# Types/OneEncoding — how far the decoded fields determine the bytes of a transaction

    [… call data … signature] trailing        01, [… call data, access list … signature] trailing

The decoder checks every scalar for its one encoding.  It takes the payload of the call data and of
the access list whatever their items are, and a malformed item behind the signature for the end of
the list.
-/

namespace NeonEvm

open Exec Rlp RlpCrate

/-! ## The loose parts of a transaction -/

/-- The first `n` items of a text, and the text after them. -/
def takeItems : ℕ → Bytes → Option (List Item × Bytes)
  | 0, bs => some ([], bs)
  | n + 1, bs =>
    match Item.front bs with
    | some (i, rest) => (takeItems n rest).map fun (is, rest) => (i :: is, rest)
    | none => none

/-- The first `n` items of the list that a text is, and the text after them in the list. -/
def listItems (n : ℕ) (rlp : Bytes) : Option (List Bytes × Bytes) :=
  match Item.front rlp with
  | some (.list p, _) => (takeItems n p).map fun (is, rest) => (is.map Item.bytes, rest)
  | _ => none

/-- The bytes that the call data and the access list are spelled with, and those that follow the
last signature field in the list. -/
structure Spelling where
  callData : Bytes
  accessList : Option Bytes
  trailing : Bytes
  deriving DecidableEq

/-- The spelling of a legacy transaction. -/
def legacySpelling (rlp : Bytes) : Option Spelling :=
  (listItems 9 rlp).map fun (xs, rest) => ⟨xs.getD 5 [], none, rest⟩

/-- The spelling of an access list transaction. -/
def accessListSpelling (rlp : Bytes) : Option Spelling :=
  (listItems 11 rlp).map fun (xs, rest) => ⟨xs.getD 6 [], some (xs.getD 7 []), rest⟩

/-- The spelling of a transaction, in the envelope that its first byte names. -/
def spelling : Bytes → Option Spelling
  | [] => none
  | b :: bs =>
    if b = 0x00 then legacySpelling bs
    else if b = 0x01 then accessListSpelling bs
    else legacySpelling (b :: bs)

/-- Call data and access list are canonical items of the right kind and nothing follows the
signature. -/
structure Spelling.Canonical (s : Spelling) : Prop where
  callData : ∃ bs, s.callData = encodeBytes bs
  accessList : ∀ l ∈ s.accessList, ∃ entries, l = encodeAccessList entries
  trailing : s.trailing = []

/-- The transaction is spelled canonically. -/
def Strict (a : Bytes) : Prop := ∃ s ∈ spelling a, s.Canonical

theorem takeItems_text {is : List Item} {rest : Bytes} (h : (Item.text is ++ rest).length < USIZE) :
    takeItems is.length (Item.text is ++ rest) = some (is, rest) := by
  induction is with
  | nil => rfl
  | cons i is ih =>
    rw [Item.text_cons, List.append_assoc] at h ⊢
    have hle : (Item.text is ++ rest).length < USIZE :=
      (List.suffix_append i.bytes _).length_le.trans_lt h
    rw [List.length_cons, takeItems, Item.front_append (Item.fits_of_length rfl h)]
    simp only [ih hle, Option.map_some]

theorem listItems_flatten {xs : List Bytes} {rest : Bytes} (hxs : ∀ x ∈ xs, Whole x)
    (hlen : (Item.list (xs.flatten ++ rest)).bytes.length < USIZE) :
    listItems xs.length (Item.list (xs.flatten ++ rest)).bytes = some (xs, rest) := by
  obtain ⟨is, rfl⟩ := exists_items hxs
  rw [listItems, front_bytes hlen]
  rw [flatten_map_bytes] at hlen ⊢
  simp only [List.length_map, takeItems_text (length_payload_lt hlen), Option.map_some]

theorem spelling_list {p : Bytes} (h : (Item.list p).bytes.length < USIZE) :
    spelling (Item.list p).bytes = legacySpelling (Item.list p).bytes := by
  obtain ⟨b, bs, hbs, hlist, -⟩ :=
    exists_head (Item.fits_of_length (List.append_nil _).symm h) []
  rw [List.append_nil] at hbs
  have hb := hlist.2 rfl
  have h0 : b ≠ 0x00 := fun h0 => by simp [h0] at hb
  have h1 : b ≠ 0x01 := fun h1 => by simp [h1] at hb
  rw [hbs, spelling, if_neg h0, if_neg h1]

/-! ## What an accepted transaction is -/

section

variable [RlpCrate] [Platform]

/-- `Transaction::from_rlp` accepts `a`, in the envelope `e` and with the fields `p`. -/
def Reads (a : Bytes) (e : Option TransactionEnvelope) (p : TransactionPayload) : Prop :=
  ∃ rlp t, TransactionEnvelope.getType a () = .ok (e, rlp) () ∧
    Transaction.fromRlp a () = .ok t () ∧ t.transaction = p

/-- **A transaction has one encoding** — the fields and the envelope determine the bytes. -/
def OneEncoding : Prop := ∀ a b e p, Reads a e p → Reads b e p → a = b

variable {a b : Bytes} {e : Option TransactionEnvelope} {p : TransactionPayload}

omit [Platform] in
theorem ofDecoding_eq_ok {α : Type} {x : Decoding α} {y : α} {s t : Unit} :
    ofDecoding x s = .ok y t ↔ x s = .ok y t := by
  rw [ofDecoding]
  rcases x s with ⟨z, u⟩ | ⟨f, u⟩ | q <;> simp

omit [RlpCrate] [Platform] in
theorem ofExcept_eq_ok {ε α : Type} {x : Except ε α} {y : α} {s t : Unit} :
    (Exec.ofExcept x : Exec Fault ε Unit α) s = .ok y t ↔ x = .ok y := by
  rcases x with f | z
  · simp [Exec.ofExcept]
  · simp [Exec.ofExcept, pure_run]

theorem fromPayload_transaction {q : TransactionPayload} {c : Option U256} {rlp : Bytes}
    {t : Transaction} (h : Transaction.fromPayload e c rlp q () = .ok t ()) : t.transaction = q := by
  unfold Transaction.fromPayload at h
  obtain ⟨hashes, _, -, h⟩ := bind_eq_ok.1 h
  obtain ⟨info, _, -, h⟩ := bind_eq_ok.1 h
  rw [pure_run] at h
  obtain ⟨rfl, -⟩ := by simpa using h
  rfl

omit [Platform] in
/-- **The envelope is the first byte**, or there is none. -/
theorem getType_eq_ok {rlp : Bytes} (h : TransactionEnvelope.getType a () = .ok (e, rlp) ()) :
    (e = none ∧ a = rlp) ∨ (e = some .legacy ∧ a = 0x00 :: rlp) ∨
      (e = some .accessList ∧ a = 0x01 :: rlp) ∨ e = some .dynamicFee := by
  rw [TransactionEnvelope.getType] at h
  split at h
  · obtain ⟨rfl, rfl⟩ := by simpa [pure_run, eq_comm] using h
    exact .inl ⟨rfl, rfl⟩
  obtain ⟨byte, _, hbyte, h⟩ := bind_eq_ok.1 h
  rcases a with _ | ⟨b, bs⟩
  · exact absurd hbyte (by simp [byteAt, Exec.ofOption])
  obtain rfl : b = byte := by simpa [byteAt, Exec.ofOption, pure_run] using hbyte
  split at h
  · next hb =>
    obtain ⟨rfl, rfl⟩ := by simpa [pure_run, eq_comm] using h
    exact .inr (.inl ⟨rfl, by rw [hb]⟩)
  split at h
  · next hb =>
    obtain ⟨rfl, rfl⟩ := by simpa [pure_run, eq_comm] using h
    exact .inr (.inr (.inl ⟨rfl, by rw [hb]⟩))
  split at h
  · obtain ⟨rfl, -⟩ := by simpa [pure_run, eq_comm] using h
    exact .inr (.inr (.inr rfl))
  · exact absurd h (by simp)

/-- **What was accepted was decoded**: the fields are those of the list in the envelope. -/
theorem Reads.decoded (h : Reads a e p) :
    (∃ tx rlp, p = .legacy tx ∧ LegacyTx.decode rlp = .ok tx ∧
      (e = none ∧ a = rlp ∨ e = some .legacy ∧ a = 0x00 :: rlp)) ∨
    ∃ tx rlp, p = .accessList tx ∧ AccessListTx.decode rlp = .ok tx ∧ e = some .accessList ∧
      a = 0x01 :: rlp := by
  obtain ⟨rlp, t, htype, h, rfl⟩ := h
  rw [Transaction.fromRlp] at h
  obtain ⟨⟨e', rlp'⟩, _, htype', hrun⟩ := bind_eq_ok.1 h
  clear h
  obtain ⟨rfl, rfl⟩ : e = e' ∧ rlp = rlp' := by
    rw [htype] at htype'
    simpa using htype'
  rcases getType_eq_ok htype with ⟨rfl, rfl⟩ | ⟨rfl, rfl⟩ | ⟨rfl, rfl⟩ | rfl
  · obtain ⟨tx, _, htx, h⟩ := bind_eq_ok.1 hrun
    exact .inl ⟨tx, a, fromPayload_transaction (ofDecoding_eq_ok.1 h),
      ofExcept_eq_ok.1 (ofDecoding_eq_ok.1 htx), .inl ⟨rfl, rfl⟩⟩
  · obtain ⟨tx, _, htx, h⟩ := bind_eq_ok.1 hrun
    exact .inl ⟨tx, rlp, fromPayload_transaction (ofDecoding_eq_ok.1 h),
      ofExcept_eq_ok.1 (ofDecoding_eq_ok.1 htx), .inr ⟨rfl, rfl⟩⟩
  · obtain ⟨tx, _, htx, h⟩ := bind_eq_ok.1 hrun
    exact .inr ⟨tx, rlp, fromPayload_transaction (ofDecoding_eq_ok.1 h),
      ofExcept_eq_ok.1 (ofDecoding_eq_ok.1 htx), rfl, rfl⟩
  · exact absurd hrun (by simp)

/-- The text of a transaction that is spelled as `s`. -/
def textOf (e : Option TransactionEnvelope) (p : TransactionPayload) (s : Spelling) : Bytes :=
  match p with
  | .legacy tx =>
    (if e = none then [] else [0x00]) ++
      (Item.list ((tx.items s.callData).flatten ++ s.trailing)).bytes
  | .accessList tx =>
    0x01 :: (Item.list ((tx.items s.callData (s.accessList.getD [])).flatten ++ s.trailing)).bytes

/-- The items of the spelling are read as the call data and the access list of `p`. -/
def Spelling.Of (s : Spelling) (p : TransactionPayload) : Prop :=
  Whole s.callData ∧
    match p with
    | .legacy tx => SpellsData s.callData tx.callData ∧ s.accessList = none
    | .accessList tx => SpellsData s.callData tx.callData ∧
        ∃ l, s.accessList = some l ∧ Whole l ∧ SpellsAccessList l tx.accessList

variable [Lawful]

/-- **An accepted transaction is the text of its fields**, spelled as it is. -/
theorem Reads.exists_spelling (h : Reads a e p) (hlen : a.length ≤ ISIZE_MAX) :
    ∃ s, spelling a = some s ∧ a = textOf e p s ∧ s.Of p := by
  have husize : a.length < USIZE := hlen.trans_lt (by decide)
  rcases h.decoded with ⟨tx, rlp, rfl, hdecode, henv⟩ | ⟨tx, rlp, rfl, hdecode, rfl, rfl⟩
  · have hrlp : rlp.length < USIZE := by
      rcases henv with ⟨-, rfl⟩ | ⟨-, rfl⟩
      · exact husize
      · exact (Nat.lt_succ_self _).trans husize
    obtain ⟨c, rest, hxs, rfl, -, -, hdata, -⟩ := (LegacyTx.decode_eq_ok hrlp).1 hdecode
    have hspelling : legacySpelling (Item.list ((tx.items c).flatten ++ rest)).bytes =
        some ⟨c, none, rest⟩ := by
      have hitems : listItems 9 _ = _ := listItems_flatten hxs hrlp
      rw [legacySpelling, hitems]
      rfl
    have hof : Spelling.Of ⟨c, none, rest⟩ (.legacy tx) :=
      ⟨hxs c (by simp [LegacyTx.items]), hdata, rfl⟩
    rcases henv with ⟨rfl, rfl⟩ | ⟨rfl, rfl⟩
    · exact ⟨_, (spelling_list hrlp).trans hspelling, rfl, hof⟩
    · exact ⟨_, hspelling, rfl, hof⟩
  · have hrlp : rlp.length < USIZE := (Nat.lt_succ_self _).trans husize
    obtain ⟨c, l, rest, hxs, rfl, -, -, hdata, hlist⟩ := (AccessListTx.decode_eq_ok hrlp).1 hdecode
    have hspelling : accessListSpelling (Item.list ((tx.items c l).flatten ++ rest)).bytes =
        some ⟨c, some l, rest⟩ := by
      have hitems : listItems 11 _ = _ := listItems_flatten hxs hrlp
      rw [accessListSpelling, hitems]
      rfl
    exact ⟨_, hspelling, rfl, hxs c (by simp [AccessListTx.items]), hdata, l, rfl,
      hxs l (by simp [AccessListTx.items]), hlist⟩

omit [Platform] in
theorem spellsData_unique {c : Bytes} {buffer : Buffer} (hc : Whole c) (h : SpellsData c buffer)
    (hcan : ∃ bs, c = encodeBytes bs) : c = encodeBytes buffer.toList := by
  obtain ⟨bs, rfl⟩ := hcan
  obtain ⟨-, -, hlen⟩ := hc
  obtain ⟨ds, hds, rfl⟩ := h
  rw [← Item.bytes_ofBytes] at hlen hds
  rw [Lawful.data_bytes hlen, Item.payload_ofBytes] at hds
  rw [Buffer.toList_fromSlice, Except.ok.inj hds]

omit [Platform] in
theorem spellsAccessList_unique {l : Bytes} {entries : List (Address × List U256)} (hl : Whole l)
    (h : SpellsAccessList l entries) (hcan : ∃ es, l = encodeAccessList es) :
    l = encodeAccessList entries := by
  obtain ⟨es, rfl⟩ := hcan
  obtain ⟨-, -, hlen⟩ := hl
  have heq := (spells_encodeAccessList hlen).symm.trans h
  rw [Except.ok.inj heq]

omit [Platform] in
/-- **The fields have one canonical spelling.** -/
theorem Spelling.Canonical.unique {s s' : Spelling} (hs : s.Canonical) (hs' : s'.Canonical)
    (h : s.Of p) (h' : s'.Of p) : s = s' := by
  obtain ⟨c, l, rest⟩ := s
  obtain ⟨c', l', rest'⟩ := s'
  obtain rfl : rest = rest' := hs.trailing.trans hs'.trailing.symm
  obtain ⟨hc, h⟩ := h
  obtain ⟨hc', h'⟩ := h'
  rcases p with tx | tx
  · obtain ⟨hdata, rfl⟩ := h
    obtain ⟨hdata', rfl⟩ := h'
    have heq := (spellsData_unique hc hdata hs.callData).trans
      (spellsData_unique hc' hdata' hs'.callData).symm
    exact congrArg (Spelling.mk · none rest) heq
  · obtain ⟨hdata, k, rfl, hk, hlist⟩ := h
    obtain ⟨hdata', k', rfl, hk', hlist'⟩ := h'
    have heq := (spellsData_unique hc hdata hs.callData).trans
      (spellsData_unique hc' hdata' hs'.callData).symm
    have heq' := (spellsAccessList_unique hk hlist (hs.accessList k rfl)).trans
      (spellsAccessList_unique hk' hlist' (hs'.accessList k' rfl)).symm
    exact congrArg₂ (Spelling.mk · · rest) heq (congrArg some heq')

/-- **The fields determine the bytes up to their spelling** — and a canonical transaction is told
from every other spelling of its fields. -/
theorem one_encoding_of_spelling (a b : Bytes) (e : Option TransactionEnvelope)
    (p : TransactionPayload) (ha : Reads a e p) (hb : Reads b e p) (hlen : a.length ≤ ISIZE_MAX)
    (hlen' : b.length ≤ ISIZE_MAX) :
    (a = b ↔ spelling a = spelling b) ∧ (Strict a → (a = b ↔ Strict b)) := by
  obtain ⟨s, hs, has, hof⟩ := ha.exists_spelling hlen
  obtain ⟨s', hs', hbs, hof'⟩ := hb.exists_spelling hlen'
  have heq : spelling a = spelling b → a = b := fun h => by
    obtain rfl : s = s' := by simpa [hs, hs'] using h
    rw [has, hbs]
  refine ⟨⟨fun h => h ▸ rfl, heq⟩, fun hstrict => ⟨fun h => h ▸ hstrict, fun hstrict' => ?_⟩⟩
  obtain ⟨t, ht, hcan⟩ := hstrict
  obtain ⟨t', ht', hcan'⟩ := hstrict'
  obtain rfl : s = t := by simpa [hs] using ht
  obtain rfl : s' = t' := by simpa [hs'] using ht'
  exact heq (by rw [hs, hs', hcan.unique hcan' hof hof'])

end

/-! ## A transaction with two encodings -/

/-- The fields of a transaction that creates nothing. -/
def plainTx : LegacyTx := ⟨0, 0, 0, none, 0, .empty, 27, 1, 1, none, 0⟩

/-- Its encoding. -/
def plainBytes : Bytes := [0xc9, 0x80, 0x80, 0x80, 0x80, 0x80, 0x80, 0x1b, 0x01, 0x01]

/-- The same with the header of an item of three bytes behind the signature. -/
def trailedBytes : Bytes := [0xca, 0x80, 0x80, 0x80, 0x80, 0x80, 0x80, 0x1b, 0x01, 0x01, 0x83]

theorem reads_of_run [RlpCrate] [Platform] {a rlp : Bytes} {e : Option TransactionEnvelope}
    {p : TransactionPayload} (htype : TransactionEnvelope.getType a () = .ok (e, rlp) ())
    (h : (Transaction.fromRlp a ()).okAnd (fun t _ => t.transaction = p) = true) : Reads a e p := by
  obtain ⟨t, _, ht, hp⟩ := Outcome.exists_of_okAnd h
  exact ⟨rlp, t, htype, ht, by simpa using hp⟩

theorem reads_plainBytes :
    @Reads RlpCrate.reference Platform.bare plainBytes none (.legacy plainTx) :=
  let _ := RlpCrate.reference
  let _ := Platform.bare
  reads_of_run (show TransactionEnvelope.getType plainBytes () = .ok (none, plainBytes) () by
    decide +kernel) (by decide +kernel)

theorem reads_trailedBytes :
    @Reads RlpCrate.reference Platform.bare trailedBytes none (.legacy plainTx) :=
  let _ := RlpCrate.reference
  let _ := Platform.bare
  reads_of_run (show TransactionEnvelope.getType trailedBytes () = .ok (none, trailedBytes) () by
    decide +kernel) (by decide +kernel)

/-- **The encoding is malleable**: the item behind the signature is malformed, so `at(9)` fails. -/
theorem encoding_malleable :
    ¬∀ (crate : RlpCrate) (platform : Platform), @Lawful crate → @OneEncoding crate platform :=
  fun h => absurd (h _ _ RlpCrate.reference_lawful _ _ _ _ reads_plainBytes reads_trailedBytes)
    (by decide)

/-- The bytes differ, and only one of them is canonical. -/
theorem one_encoding_of_spelling_plain :
    spelling plainBytes ≠ spelling trailedBytes ∧ ¬Strict trailedBytes := by
  let _ := RlpCrate.reference
  let _ := Platform.bare
  have _ := RlpCrate.reference_lawful
  obtain ⟨hiff, hstrict⟩ := one_encoding_of_spelling plainBytes trailedBytes none (.legacy plainTx)
    reads_plainBytes reads_trailedBytes (by decide) (by decide)
  have hplain : Strict plainBytes :=
    ⟨⟨[0x80], none, []⟩, by decide +kernel, ⟨[], rfl⟩, by simp, rfl⟩
  exact ⟨fun h => absurd (hiff.2 h) (by decide), fun h => absurd ((hstrict hplain).2 h) (by decide)⟩

end NeonEvm
