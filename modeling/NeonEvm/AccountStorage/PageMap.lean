import NeonEvm.Account.PageSeed
import NeonEvm.AccountStorage.Coherent

/-!
# AccountStorage/PageMap — a page through its operations

    create i v · set i v · clear      in any order, on one account

What a page holds after a history of these is the history's own: the last value of a byte, and one
record for each byte that was written since the page was made or cleared.
-/

namespace NeonEvm

open Exec Packable Chunks EthereumStorage

/-! ## What `set` does -/

section

variable [Platform] [Runtime]

omit [Runtime] in
theorem minimumBalance_ok {len m : ℕ} {L L' : Ledger} (h : minimumBalance len L = .ok m L') :
    Platform.minimumBalance len = .ok m ∧ L = L' := by
  obtain ⟨hm, hL⟩ := lift_eq_ok.1 h
  exact ⟨ofForeign_eq_ok hm, hL⟩

omit [Platform] [Runtime] in
/-- The handle of a page. -/
theorem Ledger.content_of_handle {L : Ledger} {k : Pubkey} {page : Handle EthereumStorage}
    (h : L.handle? EthereumStorage k = some page) :
    page.key = k ∧ (L k).content = .storage page.data page.rest := by
  obtain ⟨e, he, rfl⟩ := Option.map_eq_some_iff.1 h
  refine ⟨rfl, ?_⟩
  rcases hc : (L k).content with _ | _ | ⟨p, rest⟩ | _ | _ | _ <;> rw [hc] at he <;> cases he
  rfl

omit [Runtime] in
/-- **All that `set` does**: it writes the page, and notes what the account lacks for one record
more. -/
theorem ProgramAccountStorage.setStorage_cases {S S' : ProgramAccountStorage}
    {page : Handle EthereumStorage} {transfers transfers' : Transfers} {k : Pubkey} {i : UInt8}
    {v : U256} (hpage : S.ledger.handle? EthereumStorage k = some page)
    (h : setStorage page transfers i v S = .ok transfers' S') :
    ∃ p rest, (S.ledger k).content = .storage p rest ∧
      S'.ledger = S.ledger.setContent k (.storage p (setRest rest i v)) ∧
      ((setPresent rest i v).isSome ∧ transfers' = transfers ∨
        ¬(setPresent rest i v).isSome ∧
          ∃ m, Platform.minimumBalance (SIZE EthereumStorage + rest.length + RECORD) = .ok m ∧
            transfers' = if (S.ledger k).lamports < m then
              transfers.insert k (m - (S.ledger k).lamports) else transfers) := by
  obtain ⟨k, p, rest⟩ := page
  obtain ⟨rfl, hcontent⟩ := Ledger.content_of_handle hpage
  obtain ⟨_, S₁, hsave, hrest⟩ := bind_eq_ok.1 h
  obtain rfl := save_ok hsave
  refine ⟨p, rest, hcontent, ?_⟩
  split_ifs at hrest with hpresent
  · obtain ⟨rfl, rfl⟩ := pure_eq_ok.1 hrest
    exact ⟨rfl, .inl ⟨hpresent, rfl⟩⟩
  · simp only [bind_eq_ok, get_eq_ok, pure_eq_ok] at hrest
    obtain ⟨m, S₂, hminimum, _, _, ⟨rfl, rfl⟩, htransfers, rfl⟩ := hrest
    obtain ⟨L₂, hL₂, rfl⟩ := zoom_eq_ok.1 hminimum
    obtain ⟨hm, rfl⟩ := minimumBalance_ok hL₂
    refine ⟨rfl, .inr ⟨hpresent, m, hm, ?_⟩⟩
    have hlamports : (S.ledger.setContent k (content p (setRest rest i v)) k).lamports =
        (S.ledger k).lamports := by rw [Ledger.setContent_apply, if_pos rfl]
    exact hlamports ▸ htransfers.symm

end

namespace EthereumStorage

/-! ## Histories of a page -/

/-- An operation on a page. -/
inductive PageOp where
  | create (subindex : UInt8) (value : U256)
  | set (subindex : UInt8) (value : U256)
  | clear

/-- The value last set for a byte since the page was made or cleared; the newest operation comes
first. -/
def lastSet (i : UInt8) : List PageOp → U256
  | [] => 0
  | .create j v :: _ => if i = j then v else 0
  | .set j v :: ops => if i = j then v else lastSet i ops
  | .clear :: _ => 0

/-- The bytes that were set since the page was made or cleared. -/
def subindicesSet : List PageOp → Finset UInt8
  | [] => ∅
  | .create j _ :: _ => {j}
  | .set j _ :: ops => insert j (subindicesSet ops)
  | .clear :: _ => ∅

section

variable [Platform] [Runtime]

/-- One operation on the page under a key. -/
inductive PageStep (k : Pubkey) : PageOp → Ledger → Ledger → Prop
  | create {operator : Pubkey} {contract : Handle EthereumAccount} {info : AccountMeta}
      {index : U256} {i : UInt8} {v : U256} {L L' : Ledger} (hk : info.pubkey = k)
      (h : ProgramAccountStorage.createStorage operator contract info index i v L = .ok () L') :
      PageStep k (.create i v) L L'
  | set {page : Handle EthereumStorage} {transfers transfers' : ProgramAccountStorage.Transfers}
      {i : UInt8} {v : U256} {S S' : ProgramAccountStorage}
      (hpage : S.ledger.handle? EthereumStorage k = some page)
      (h : ProgramAccountStorage.setStorage page transfers i v S = .ok transfers' S') :
      PageStep k (.set i v) S.ledger S'.ledger
  | clear {info : AccountMeta} {p : EthereumStorage} {rest : Bytes} {generation : ℕ}
      {operator : Pubkey} {L L' : Ledger} (hk : info.pubkey = k)
      (hpage : (L k).content = .storage p rest)
      (h : p.clear info generation operator L = .ok () L') : PageStep k .clear L L'

/-- A history of the page under a key, the newest operation first; what happens to other accounts
in between leaves its data. -/
inductive PageRun (k : Pubkey) : List PageOp → Ledger → Prop
  | create {i : UInt8} {v : U256} {L L' : Ledger} (h : PageStep k (.create i v) L L') :
      PageRun k [.create i v] L'
  | next {op : PageOp} {ops : List PageOp} {L L' : Ledger} (h : PageRun k ops L)
      (hstep : PageStep k op L L') : PageRun k (op :: ops) L'
  | other {ops : List PageOp} {L L' : Ledger} (h : PageRun k ops L)
      (hk : (L' k).content = (L k).content) : PageRun k ops L'

end

/-! ## Records under distinct bytes -/

section

variable {cells : Cells} {i j : UInt8} {v : U256}

/-- The bytes of the records. -/
abbrev Cells.subindices (cells : Cells) : List UInt8 := cells.map Prod.fst

theorem subindices_setCells (cells : Cells) :
    Cells.subindices (setCells i v cells) =
      if i ∈ Cells.subindices cells then Cells.subindices cells else Cells.subindices cells ++ [i] := by
  induction cells with
  | nil => rfl
  | cons c cells ih =>
    rw [setCells]
    by_cases hc : c.1 = i
    · rw [if_pos hc, if_pos (List.mem_map.2 ⟨c, List.mem_cons_self, hc⟩)]
      exact congrArg (· :: _) hc.symm
    · have hmem : i ∈ Cells.subindices (c :: cells) ↔ i ∈ Cells.subindices cells :=
        List.mem_cons.trans (or_iff_right (Ne.symm hc))
      rw [if_neg hc]
      refine (congrArg (c.1 :: ·) ih).trans ?_
      by_cases hi : i ∈ Cells.subindices cells
      · rw [if_pos hi, if_pos (hmem.2 hi)]
        rfl
      · rw [if_neg hi, if_neg fun h => hi (hmem.1 h)]
        rfl

/-- What the records of a page are, in terms of its history. -/
structure Records (cells : Cells) (ops : List PageOp) : Prop where
  nodup : cells.subindices.Nodup
  subindices : cells.subindices.toFinset = subindicesSet ops
  value : ∀ i, valueIn cells i = lastSet i ops

theorem records_create {ops : List PageOp} : Records [(i, v)] (.create i v :: ops) where
  nodup := List.nodup_singleton i
  subindices := rfl
  value j := by
    rw [show ([(i, v)] : Cells) = setCells i v [] from rfl, valueIn_setCells]
    rfl

theorem records_clear {ops : List PageOp} : Records [] (.clear :: ops) where
  nodup := List.nodup_nil
  subindices := rfl
  value _ := rfl

/-- **A write** overwrites the record of its byte, or adds one. -/
theorem Records.set {ops : List PageOp} (h : Records cells ops) :
    Records (setCells i v cells) (.set i v :: ops) where
  nodup := by
    rw [subindices_setCells]
    split_ifs with hi
    · exact h.nodup
    · exact List.nodup_append.2 ⟨h.nodup, List.nodup_singleton i, fun a ha b hb =>
        fun hab => hi (List.mem_singleton.1 hb ▸ hab ▸ ha)⟩
  subindices := by
    rw [subindicesSet, ← h.subindices, subindices_setCells]
    split_ifs with hi
    · rw [Finset.insert_eq_of_mem (List.mem_toFinset.2 hi)]
    · rw [List.toFinset_append, Finset.union_comm]
      rfl
  value j := by
    rw [valueIn_setCells, h.value]
    rfl

/-! ## What a page holds -/

theorem length_rowOf (cells : Cells) : (rowOf cells).length = RECORD * cells.length := by
  rw [rowOf, length_flatten_of_forall fun _ => length_of_mem_records, List.length_map]

/-- The account holds a page with the records of a history. -/
def HoldsPage (L : Ledger) (k : Pubkey) (ops : List PageOp) : Prop :=
  ∃ p cells, (L k).content = .storage p (rowOf cells) ∧ Records cells ops

variable [Platform] [Runtime] {k : Pubkey} {op : PageOp} {ops : List PageOp} {L L' : Ledger}

theorem PageStep.holds_create {ops : List PageOp} (h : PageStep k (.create i v) L L') :
    HoldsPage L' k (.create i v :: ops) := by
  rcases h with ⟨rfl, h⟩
  obtain ⟨_, L₁, -, h⟩ := bind_eq_ok.1 h
  obtain ⟨_, L₂, -, h⟩ := bind_eq_ok.1 h
  obtain ⟨⟨e, rest⟩, L₃, -, h⟩ := bind_eq_ok.1 h
  obtain ⟨_, L₄, -, h⟩ := bind_eq_ok.1 h
  obtain rfl := modify_eq_ok.1 h
  have hrow : record i v = rowOf [(i, v)] := by
    rw [rowOf, List.map_singleton, List.flatten_singleton]
  exact ⟨_, [(i, v)], Ledger.content_setContent_self.trans (congrArg _ hrow), records_create⟩

/-- **One operation** on a page. -/
theorem HoldsPage.step (h : HoldsPage L k ops) (hstep : PageStep k op L L') :
    HoldsPage L' k (op :: ops) := by
  obtain ⟨p, cells, hcontent, hrecords⟩ := h
  cases hstep with
  | create hk hcreate => exact PageStep.holds_create (.create hk hcreate)
  | @set page _ _ i v S S' hpage hset =>
    obtain ⟨p', rest, hcontent', hledger, -⟩ :=
      ProgramAccountStorage.setStorage_cases hpage hset
    obtain ⟨rfl, rfl⟩ := Content.storage.inj (hcontent.symm.trans hcontent')
    exact ⟨p, setCells i v cells, by rw [hledger, Ledger.content_setContent_self, setRest_rowOf],
      hrecords.set⟩
  | @clear info p' rest generation operator _ _ hk hpage hclear =>
    subst hk
    simp only [EthereumStorage.clear, minimumBalance, accountAt, bind_eq_ok, assertThat_eq_ok,
      modify_eq_ok, lift_eq_ok, gets_eq_ok] at hclear
    obtain ⟨_, _, ⟨-, rfl⟩, _, _, rfl, _, _, ⟨-, rfl⟩, _, _, ⟨rfl, rfl⟩, hclear⟩ := hclear
    refine ⟨{ p' with generation }, [], ?_, records_clear⟩
    split_ifs at hclear
    · obtain ⟨_, _, hx, hy⟩ := bind_eq_ok.1 hclear
      obtain rfl := modify_eq_ok.1 hx
      obtain rfl := modify_eq_ok.1 hy
      rw [Ledger.content_setLamports, Ledger.content_setLamports, Ledger.content_setContent_self]
      rfl
    · obtain ⟨-, rfl⟩ := pure_eq_ok.1 hclear
      exact Ledger.content_setContent_self

/-- **A history of a page.** -/
theorem PageRun.holds (h : PageRun k ops L) : HoldsPage L k ops := by
  induction h with
  | create h => exact h.holds_create
  | next _ hstep ih => exact ih.step hstep
  | other _ hk ih =>
    obtain ⟨p, cells, hcontent, hrecords⟩ := ih
    exact ⟨p, cells, hk.trans hcontent, hrecords⟩

omit [Platform] [Runtime] in
theorem card_subindices_le (s : Finset UInt8) : s.card ≤ 256 := by
  have hcard := Finset.card_le_card_of_injOn UInt8.toNat (s := s) (t := Finset.range 256)
    (fun i _ => Finset.mem_range.2 i.toNat_lt) fun i _ j _ => UInt8.toNat_inj.1
  rwa [Finset.card_range] at hcard

/-- What a page is to a reader, in terms of its history. -/
structure IsMapOf (c : Content) (ops : List PageOp) : Prop where
  get : ∃ p rest, c = .storage p rest ∧ (∀ i, EthereumStorage.get rest i = lastSet i ops) ∧
    ((chunksExact RECORD rest).map List.head?).Nodup ∧ (chunksExact RECORD rest).length ≤ 256
  len : c.len = SIZE EthereumStorage + RECORD * (subindicesSet ops).card

omit [Platform] [Runtime] in
/-- **The records of a history** make a map. -/
theorem HoldsPage.isMapOf (h : HoldsPage L k ops) : IsMapOf (L k).content ops := by
  obtain ⟨p, cells, hcontent, hrecords⟩ := h
  have hcard : (subindicesSet ops).card = cells.length := by
    rw [← hrecords.subindices, List.toFinset_card_of_nodup hrecords.nodup, List.length_map]
  have hheads : (chunksExact RECORD (rowOf cells)).map List.head? = cells.subindices.map some := by
    rw [chunksExact_rowOf, List.map_map, Cells.subindices, List.map_map]
    rfl
  have hle : (subindicesSet ops).card ≤ 256 := card_subindices_le _
  refine ⟨⟨p, rowOf cells, hcontent, fun i => ?_, ?_, ?_⟩, ?_⟩
  · rw [get_rowOf, hrecords.value]
  · rw [hheads]
    exact hrecords.nodup.map (Option.some_injective _)
  · rw [chunksExact_rowOf, List.length_map, ← hcard]
    exact hle
  · rw [hcontent, hcard, ← length_rowOf]
    rfl

end

end EthereumStorage

/-! ## Pages of one contract -/

section

variable [Platform] [Runtime] {k other : Pubkey} {op : PageOp} {L L' : Ledger}

/-- **An operation on a page** leaves every other page. -/
theorem EthereumStorage.PageStep.held_of_ne [Runtime.Lawful] (h : PageStep k op L L')
    (hne : other ≠ k) : L'.held EthereumStorage other = L.held EthereumStorage other := by
  have hset {L : Ledger} {c : Content} : (L.setContent k c).held EthereumStorage other =
      L.held EthereumStorage other := by
    rw [Ledger.held, Ledger.setContent_of_ne hne, Ledger.held]
  cases h with
  | create hk h =>
    subst hk
    obtain ⟨_, L₁, hspace, h⟩ := bind_eq_ok.1 h
    obtain ⟨_, L₂, hinit, h⟩ := bind_eq_ok.1 h
    obtain ⟨-, -, rfl⟩ := initAccount_ok hinit
    obtain ⟨⟨e, rest⟩, L₃, hopen, h⟩ := bind_eq_ok.1 h
    obtain ⟨rfl, -⟩ := openAccount_ok hopen
    obtain ⟨_, L₄, hassert, h⟩ := bind_eq_ok.1 h
    obtain ⟨-, rfl⟩ := assertThat_eq_ok.1 hassert
    obtain rfl := modify_eq_ok.1 h
    have hforeign := returns_createAccountWithSeed _ _ _ _ _ _ _ _ _ _ hspace
    rw [hset, hset, hforeign.held_eq fun _ => rfl]
  | set hpage h =>
    obtain ⟨_, _, -, hledger, -⟩ := ProgramAccountStorage.setStorage_cases hpage h
    rw [hledger, hset]
  | clear hk hpage h =>
    subst hk
    rw [(ProgramAccountStorage.clear_ok h).held_eq fun _ => rfl, hset]

/-- **Pages share an account** where they differ in their top three bytes alone, as far as the
address of an account tells its seeds apart; writing another page leaves a page as it was. -/
theorem pages_share_accounts (base : Pubkey)
    (hseed : ∀ s t : Bytes, s.length = 32 → t.length = 32 →
      Platform.createWithSeed base s programId = Platform.createWithSeed base t programId → s = t) :
    (∀ index, ∀ b ∈ makeSeed index, b < 0x80) ∧
      ∀ i j : U256,
        (makeSeed i = makeSeed j ↔ i.toNat / 2 ^ 8 % 2 ^ 224 = j.toNat / 2 ^ 8 % 2 ^ 224) ∧
        (pubkey base i = pubkey base j ↔
          i.toNat / 2 ^ 8 % 2 ^ 224 = j.toNat / 2 ^ 8 % 2 ^ 224) ∧
        (i.toNat / 2 ^ 8 % 2 ^ 224 ≠ j.toNat / 2 ^ 8 % 2 ^ 224 → ∀ (L : Ledger) (c : Content),
          L.setContent (pubkey base i) c (pubkey base j) = L (pubkey base j)) ∧
        (Runtime.Lawful → i.toNat / 2 ^ 8 % 2 ^ 224 ≠ j.toNat / 2 ^ 8 % 2 ^ 224 →
          ∀ op L L', PageStep (pubkey base i) op L L' →
            L'.held EthereumStorage (pubkey base j) = L.held EthereumStorage (pubkey base j)) := by
  refine ⟨fun index b => makeSeed_lt, fun i j => ?_⟩
  have hkey : pubkey base i = pubkey base j ↔
      i.toNat / 2 ^ 8 % 2 ^ 224 = j.toNat / 2 ^ 8 % 2 ^ 224 := by
    rw [← makeSeed_eq_iff]
    exact ⟨hseed _ _ (length_makeSeed i) (length_makeSeed j), fun h => by rw [pubkey, pubkey, h]⟩
  refine ⟨makeSeed_eq_iff, hkey, fun h L c => Ledger.setContent_of_ne fun hj => h (hkey.1 hj.symm),
    fun hlawful h op L L' hstep => ?_⟩
  exact hstep.held_of_ne fun hj => h (hkey.1 hj.symm)

end

/-- Under addresses that spell the seed out. -/
theorem pages_share_accounts_of_seed :
    let _ : Platform := { Platform.bare with createWithSeed := fun _ seed _ => U256.ofBytes seed }
    let _ := Runtime.bare
    (∀ index, ∀ b ∈ makeSeed index, b < 0x80) ∧
      ∀ i j : U256,
        (makeSeed i = makeSeed j ↔ i.toNat / 2 ^ 8 % 2 ^ 224 = j.toNat / 2 ^ 8 % 2 ^ 224) ∧
        (EthereumStorage.pubkey 5 i = EthereumStorage.pubkey 5 j ↔
          i.toNat / 2 ^ 8 % 2 ^ 224 = j.toNat / 2 ^ 8 % 2 ^ 224) ∧
        (i.toNat / 2 ^ 8 % 2 ^ 224 ≠ j.toNat / 2 ^ 8 % 2 ^ 224 → ∀ (L : Ledger) (c : Content),
          L.setContent (EthereumStorage.pubkey 5 i) c (EthereumStorage.pubkey 5 j) =
            L (EthereumStorage.pubkey 5 j)) ∧
        (i.toNat / 2 ^ 8 % 2 ^ 224 ≠ j.toNat / 2 ^ 8 % 2 ^ 224 →
          ∀ op L L', PageStep (EthereumStorage.pubkey 5 i) op L L' →
            L'.held EthereumStorage (EthereumStorage.pubkey 5 j) =
              L.held EthereumStorage (EthereumStorage.pubkey 5 j)) := by
  let _ : Platform := { Platform.bare with createWithSeed := fun _ seed _ => U256.ofBytes seed }
  let _ := Runtime.bare
  have hlawful : Runtime.Lawful := ⟨by decide, fun _ h => (by cases h), fun _ h => (by cases h)⟩
  obtain ⟨hbytes, hpages⟩ := pages_share_accounts 5 fun s t hs ht h => by
    have hword : U256.ofBytes s = U256.ofBytes t := h
    rw [← U256.bytes_ofBytes hs, ← U256.bytes_ofBytes ht, hword]
  refine ⟨hbytes, fun i j => ?_⟩
  obtain ⟨hseed, hkey, hcontent, hstep⟩ := hpages i j
  exact ⟨hseed, hkey, hcontent, hstep hlawful⟩

/-- Two pages whose seeds are the same: they differ in the lowest bit of the top three bytes. -/
theorem pages_collide :
    ¬∀ i j : U256, i.toNat % 256 = 0 → j.toNat % 256 = 0 → makeSeed i = makeSeed j → i = j := by
  intro h
  have hne : (0 : U256) = BitVec.ofNat 256 (2 ^ 232) :=
    h 0 (BitVec.ofNat 256 (2 ^ 232)) (by decide) (by decide) (by decide +kernel)
  exact absurd hne (by decide)

end NeonEvm
