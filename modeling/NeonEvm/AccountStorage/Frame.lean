import NeonEvm.Account.Locks
import NeonEvm.AccountStorage.Funds

/-!
# AccountStorage/Frame — what an instruction leaves alone

    Within K P L L'     Ethereum accounts outside K change in their balance at most, pages of
                        accounts outside K not at all, holders and states outside P not at all

Accounts of ours lie at different kinds of addresses: an Ethereum account at the one its address
determines, a page, a holder or a state at one that was made with a seed.  A step within bounds
keeps them there, and what is new is not locked.
-/

namespace NeonEvm

open Exec Packable

/-- The data of a holder, a state or a finalized state. -/
def Content.paper : Content → Option Content
  | .holder d rest => some (.holder d rest)
  | .state d rest => some (.state d rest)
  | .finalized d rest => some (.finalized d rest)
  | _ => none

theorem Content.paper_of_tag {c : Content} (h : c.tag = some TAG_EMPTY) : c.paper = none := by
  cases c with
  | holder d rest => exact absurd h (by simp [Content.tag, TAG, TAG_EMPTY])
  | state d rest => exact absurd h (by simp [Content.tag, TAG, TAG_EMPTY])
  | finalized d rest => exact absurd h (by simp [Content.tag, TAG, TAG_EMPTY])
  | _ => rfl

theorem Content.eq_ethereum_of_split {c : Content} {d : EthereumAccount} {rest : Bytes}
    (h : split c = some (d, rest)) : c = .ethereum d rest := by
  cases c with
  | ethereum e r =>
    obtain ⟨rfl, rfl⟩ := Prod.mk.inj (Option.some.inj h)
    rfl
  | _ => cases h

theorem Content.paper_of_ethereum {c : Content} {e : EthereumAccount × Bytes}
    (h : split c = some e) : c.paper = none := by
  cases c with
  | ethereum d rest => rfl
  | _ => cases h

theorem Content.paper_of_storage {c : Content} {p : EthereumStorage × Bytes}
    (h : split c = some p) : c.paper = none := by
  cases c with
  | storage d rest => rfl
  | _ => cases h

variable [Platform] [Runtime]

/-- No address that is made with a seed is that of an Ethereum account, and neither is that of the
system program. -/
structure KeysApart : Prop where
  seed : ∀ {a : Address} {base : Pubkey} {seed : Bytes},
    a.key ≠ Platform.createWithSeed base seed programId
  system : ∀ {a : Address}, a.key ≠ Platform.systemProgramId

/-- An address that is made with a seed. -/
def Seeded (k : Pubkey) : Prop := ∃ base seed, k = Platform.createWithSeed base seed programId

namespace Ledger

omit [Platform] in
/-- The holder or the state under a key. -/
def paper (L : Ledger) (k : Pubkey) : Option Content :=
  if (L k).owner = programId then (L k).content.paper else none

/-- The Ethereum accounts that are locked. -/
def locked (L : Ledger) : Set Pubkey :=
  {k | ∃ d rest, L.held EthereumAccount k = some (d, rest) ∧ d.rwBlocked = true}

/-- Every account of ours is at an address of its kind. -/
structure Placed (L : Ledger) : Prop where
  account : ∀ {k d rest}, L.held EthereumAccount k = some (d, rest) → k = d.address.key
  page : ∀ {k}, (L.held EthereumStorage k).isSome → Seeded k
  paper : ∀ {k}, (L.paper k).isSome → Seeded k

variable {L L' : Ledger} {k : Pubkey} {c : Content}

theorem Placed.page_eq_none (hL : L.Placed) (hapart : KeysApart) (a : Address) :
    L.held EthereumStorage a.key = none := by
  rw [← Option.not_isSome_iff_eq_none]
  intro h
  obtain ⟨_, _, h⟩ := hL.page h
  exact hapart.seed h

theorem Placed.paper_eq_none (hL : L.Placed) (hapart : KeysApart) (a : Address) :
    L.paper a.key = none := by
  rw [← Option.not_isSome_iff_eq_none]
  intro h
  obtain ⟨_, _, h⟩ := hL.paper h
  exact hapart.seed h

omit [Platform] in
theorem paper_setContent {other : Pubkey} :
    (L.setContent k c).paper other =
      if other = k then if (L k).owner = programId then c.paper else none else L.paper other := by
  rw [paper, owner_setContent]
  by_cases h : other = k
  · rw [if_pos h, h, content_setContent_self]
  · rw [if_neg h, setContent_of_ne h]
    rfl

omit [Platform] in
theorem paper_of_held_ethereum {e : EthereumAccount × Bytes}
    (h : L.held EthereumAccount k = some e) : L.paper k = none := by
  rw [paper]
  split_ifs with howner
  · rw [held, if_pos howner] at h
    exact Content.paper_of_ethereum h
  · rfl

omit [Platform] in
theorem paper_of_held_storage {p : EthereumStorage × Bytes}
    (h : L.held EthereumStorage k = some p) : L.paper k = none := by
  rw [paper]
  split_ifs with howner
  · rw [held, if_pos howner] at h
    exact Content.paper_of_storage h
  · rfl

omit [Platform] in
/-- A state is the paper it is written on. -/
theorem held_state_iff_paper {d : State} {rest : Bytes} :
    L.held State k = some (d, rest) ↔ L.paper k = some (.state d rest) := by
  rw [held_state, paper]
  split_ifs with howner
  · rw [and_iff_right howner]
    cases (L k).content <;> simp [Content.paper]
  · simp [howner]

omit [Platform] in
theorem held_state_congr (h : L'.paper k = L.paper k) : L'.held State k = L.held State k := by
  rcases hs : L.held State k with _ | ⟨d, rest⟩
  · rcases hs' : L'.held State k with _ | ⟨d, rest⟩
    · rfl
    · rw [held_state_iff_paper, h, ← held_state_iff_paper, hs] at hs'
      cases hs'
  · rw [held_state_iff_paper, h, ← held_state_iff_paper, hs]

omit [Platform] in
theorem Foreign.paper_eq (h : L.Foreign L') (k : Pubkey) : L'.paper k = L.paper k := by
  rw [paper, paper]
  by_cases howner : (L k).owner = programId
  · obtain ⟨howner', hcontent⟩ := h.keeps howner
    rw [if_pos howner, if_pos howner', hcontent]
  · rw [if_neg howner]
    split_ifs with howner'
    · obtain ⟨n, hn⟩ := h.born howner howner'
      rw [hn]
      rfl
    · rfl

/-! ## Staying within bounds -/

/-- A step that works on the Ethereum accounts in `K` and on the papers in `P`. -/
structure Within (K P : Pubkey → Prop) (L L' : Ledger) : Prop where
  account : ∀ {k d rest}, L.held EthereumAccount k = some (d, rest) →
    ∃ d' rest', L'.held EthereumAccount k = some (d', rest') ∧ d'.address = d.address ∧
      (¬K k → d' = { d with balance := d'.balance } ∧ rest' = rest)
  born : ∀ {k d rest}, L.held EthereumAccount k = none →
    L'.held EthereumAccount k = some (d, rest) → k = d.address.key
  page : ∀ {k p rest}, ¬K p.address.key →
    (L'.held EthereumStorage k = some (p, rest) ↔ L.held EthereumStorage k = some (p, rest))
  stays : ∀ {k p rest}, L.held EthereumStorage k = some (p, rest) →
    ∃ p' rest', L'.held EthereumStorage k = some (p', rest') ∧ p'.address = p.address
  paper : ∀ {k}, ¬P k → L'.paper k = L.paper k
  seededPage : ∀ {k}, L.held EthereumStorage k = none → (L'.held EthereumStorage k).isSome → Seeded k
  seededPaper : ∀ {k}, L.paper k = none → (L'.paper k).isSome → Seeded k

variable {K P K' P' : Pubkey → Prop}

theorem Within.refl : L.Within K P L where
  account h := ⟨_, _, h, rfl, fun _ => ⟨rfl, rfl⟩⟩
  born h h' := absurd (h.symm.trans h') (by simp)
  page _ := Iff.rfl
  stays h := ⟨_, _, h, rfl⟩
  paper _ := rfl
  seededPage h h' := absurd h' (by simp [h])
  seededPaper h h' := absurd h' (by simp [h])

theorem Within.trans {L'' : Ledger} (h : L.Within K P L') (h' : L'.Within K P L'') :
    L.Within K P L'' where
  account {k d rest} hd := by
    obtain ⟨d', rest', hd', haddress, hframe⟩ := h.account hd
    obtain ⟨d'', rest'', hd'', haddress', hframe'⟩ := h'.account hd'
    refine ⟨d'', rest'', hd'', haddress'.trans haddress, fun hk => ?_⟩
    obtain ⟨heq, hrest⟩ := hframe hk
    obtain ⟨heq', hrest'⟩ := hframe' hk
    refine ⟨?_, hrest'.trans hrest⟩
    rw [heq', heq]
  born {k d rest} hnone hd := by
    rcases hmid : L'.held EthereumAccount k with _ | ⟨d', rest'⟩
    · exact h'.born hmid hd
    · obtain ⟨d'', rest'', hd'', haddress, -⟩ := h'.account hmid
      obtain ⟨rfl, -⟩ := Prod.mk.inj (Option.some.inj (hd''.symm.trans hd))
      exact (h.born hnone hmid).trans (congrArg Address.key haddress.symm)
  page hk := (h'.page hk).trans (h.page hk)
  stays hp := by
    obtain ⟨p', rest', hp', haddress⟩ := h.stays hp
    obtain ⟨p'', rest'', hp'', haddress'⟩ := h'.stays hp'
    exact ⟨p'', rest'', hp'', haddress'.trans haddress⟩
  paper hk := (h'.paper hk).trans (h.paper hk)
  seededPage {k} hnone hsome := by
    rcases hmid : L'.held EthereumStorage k with _ | p
    · exact h'.seededPage hmid hsome
    · exact h.seededPage hnone (hmid ▸ rfl)
  seededPaper {k} hnone hsome := by
    rcases hmid : L'.paper k with _ | c
    · exact h'.seededPaper hmid hsome
    · exact h.seededPaper hnone (hmid ▸ rfl)

theorem Within.mono (h : L.Within K P L') (hK : ∀ k, K k → K' k) (hP : ∀ k, P k → P' k) :
    L.Within K' P' L' where
  account hd := by
    obtain ⟨d', rest', hd', haddress, hframe⟩ := h.account hd
    exact ⟨d', rest', hd', haddress, fun hk => hframe fun h => hk (hK _ h)⟩
  born := h.born
  page hk := h.page fun h => hk (hK _ h)
  stays := h.stays
  paper hk := h.paper fun h => hk (hP _ h)
  seededPage := h.seededPage
  seededPaper := h.seededPaper

/-- **Within bounds**, everything is where it belongs. -/
theorem Within.placed (h : L.Within K P L') (hL : L.Placed) : L'.Placed where
  account {k d rest} hd := by
    rcases hmid : L.held EthereumAccount k with _ | ⟨d₀, rest₀⟩
    · exact h.born hmid hd
    · obtain ⟨d', rest', hd', haddress, -⟩ := h.account hmid
      obtain ⟨rfl, -⟩ := Prod.mk.inj (Option.some.inj (hd'.symm.trans hd))
      exact (hL.account hmid).trans (congrArg Address.key haddress.symm)
  page {k} hsome := by
    rcases hmid : L.held EthereumStorage k with _ | p
    · exact h.seededPage hmid hsome
    · exact hL.page (hmid ▸ rfl)
  paper {k} hsome := by
    rcases hmid : L.paper k with _ | c
    · exact h.seededPaper hmid hsome
    · exact hL.paper (hmid ▸ rfl)

/-- The same accounts, pages and papers. -/
theorem within_of_held_eq (haccount : ∀ k, L'.held EthereumAccount k = L.held EthereumAccount k)
    (hpage : ∀ k, L'.held EthereumStorage k = L.held EthereumStorage k)
    (hpaper : ∀ k, L'.paper k = L.paper k) : L.Within K P L' where
  account {k d rest} hd := ⟨d, rest, (haccount k).trans hd, rfl, fun _ => ⟨rfl, rfl⟩⟩
  born hnone hd := absurd (hnone.symm.trans ((haccount _).symm.trans hd)) (by simp)
  page _ := by rw [hpage]
  stays {k p rest} hp := ⟨p, rest, (hpage k).trans hp, rfl⟩
  paper _ := hpaper _
  seededPage {k} hnone hsome := by
    rw [hpage, hnone] at hsome
    exact nomatch hsome
  seededPaper {k} hnone hsome := by
    rw [hpaper, hnone] at hsome
    exact nomatch hsome

/-- **Other programs.** -/
theorem Foreign.within (h : L.Foreign L') : L.Within K P L' :=
  within_of_held_eq (h.held_eq fun _ => rfl) (h.held_eq fun _ => rfl) h.paper_eq

omit [Platform] in
theorem locked_congr (haccount : ∀ k, L'.held EthereumAccount k = L.held EthereumAccount k) :
    L'.locked = L.locked := by
  ext k
  rw [locked, locked, Set.mem_ofPred_eq, Set.mem_ofPred_eq, haccount]

omit [Platform] in
theorem Foreign.locked (h : L.Foreign L') : L'.locked = L.locked :=
  locked_congr (h.held_eq fun _ => rfl)

/-! ## One account -/

/-- **A write under one key.** -/
theorem within_setContent (howner : (L k).owner = programId)
    (haccount : ∀ {d rest}, L.held EthereumAccount k = some (d, rest) →
      ∃ d' rest', c = .ethereum d' rest' ∧ d'.address = d.address ∧
        (¬K k → d' = { d with balance := d'.balance } ∧ rest' = rest))
    (hborn : L.held EthereumAccount k = none → ∀ {d rest}, c = .ethereum d rest →
      k = d.address.key)
    (hpage : ∀ {p rest}, ¬K p.address.key →
      (c = .storage p rest ↔ L.held EthereumStorage k = some (p, rest)))
    (hstays : ∀ {p rest}, L.held EthereumStorage k = some (p, rest) →
      ∃ p' rest', c = .storage p' rest' ∧ p'.address = p.address)
    (hpaper : ¬P k → c.paper = L.paper k)
    (hseededPage : L.held EthereumStorage k = none → ∀ {p rest}, c = .storage p rest → Seeded k)
    (hseededPaper : L.paper k = none → c.paper.isSome → Seeded k) :
    L.Within K P (L.setContent k c) := by
  have hsplit : ∀ {d rest}, split c = some (d, rest) ↔ c = .ethereum d rest := by
    intro d rest
    cases c <;> simp [split]
  have hsplit' : ∀ {p rest}, split c = some (p, rest) ↔ c = .storage p rest := by
    intro p rest
    cases c <;> simp [split]
  refine ⟨fun {j d rest} hd => ?_, fun {j d rest} hnone hd => ?_, fun {j p rest} hK => ?_,
    fun {j p rest} hp => ?_, fun {j} hP => ?_, fun {j} hnone hsome => ?_,
    fun {j} hnone hsome => ?_⟩
  · rw [held_setContent, if_pos howner]
    split_ifs with hj
    · obtain ⟨d', rest', hc, haddress, hframe⟩ := haccount (hj ▸ hd)
      exact ⟨d', rest', hsplit.2 hc, haddress, hj ▸ hframe⟩
    · exact ⟨d, rest, hd, rfl, fun _ => ⟨rfl, rfl⟩⟩
  · rw [held_setContent, if_pos howner] at hd
    split_ifs at hd with hj
    · exact hj ▸ hborn (hj ▸ hnone) (hsplit.1 hd)
    · rw [hnone] at hd
      cases hd
  · rw [held_setContent, if_pos howner]
    split_ifs with hj
    · rw [hsplit', hj]
      exact hpage hK
    · rfl
  · rw [held_setContent, if_pos howner]
    split_ifs with hj
    · obtain ⟨p', rest', hc, haddress⟩ := hstays (hj ▸ hp)
      exact ⟨p', rest', hsplit'.2 hc, haddress⟩
    · exact ⟨p, rest, hp, rfl⟩
  · rw [paper_setContent, if_pos howner]
    split_ifs with hj
    · rw [hj] at hP ⊢
      exact hpaper hP
    · rfl
  · rw [held_setContent, if_pos howner] at hsome
    split_ifs at hsome with hj
    · obtain ⟨⟨p, rest⟩, hp⟩ := Option.isSome_iff_exists.1 hsome
      exact hj ▸ hseededPage (hj ▸ hnone) (hsplit'.1 hp)
    · rw [hnone] at hsome
      exact nomatch hsome
  · rw [paper_setContent, if_pos howner] at hsome
    split_ifs at hsome with hj
    · exact hj ▸ hseededPaper (hj ▸ hnone) hsome
    · rw [hnone] at hsome
      exact nomatch hsome

variable {d d' : EthereumAccount} {rest rest' : Bytes} {p p' : EthereumStorage}

/-- **An account** is written again, outside `K` with another balance only. -/
theorem within_setAccount (hd : L.held EthereumAccount k = some (d, rest))
    (haddress : d'.address = d.address)
    (hframe : ¬K k → d' = { d with balance := d'.balance } ∧ rest' = rest) :
    L.Within K P (L.setContent k (.ethereum d' rest')) := by
  have hpage : L.held EthereumStorage k = none := by
    rw [held, (held_ethereum.1 hd).2]
    exact ite_self _
  refine within_setContent (held_ethereum.1 hd).1 (fun {e r} he => ?_) (fun hnone => absurd (hnone.symm.trans hd) (by simp))
    (fun _ => ⟨fun h => (by cases h), fun h => absurd (hpage.symm.trans h) (by simp)⟩)
    (fun h => absurd (hpage.symm.trans h) (by simp))
    (fun _ => (paper_of_held_ethereum hd).symm) (fun _ {p r} h => by cases h)
    (fun _ h => by cases h)
  obtain ⟨rfl, rfl⟩ := Prod.mk.inj (Option.some.inj (hd.symm.trans he))
  exact ⟨d', rest', rfl, haddress, hframe⟩

/-- **A new account**, at the key of its address. -/
theorem within_newAccount (howner : (L k).owner = programId)
    (htag : (L k).content.tag = some TAG_EMPTY) (hk : k = d.address.key) :
    L.Within K P (L.setContent k (.ethereum d rest)) := by
  have haccount : L.held EthereumAccount k = none :=
    held_eq_none_of_tag htag Content.split_ethereum_of_tag
  have hpage : L.held EthereumStorage k = none :=
    held_eq_none_of_tag htag Content.split_storage_of_tag
  refine within_setContent howner (fun h => absurd (haccount.symm.trans h) (by simp))
    (fun _ {e r} h => ?_)
    (fun _ => ⟨fun h => (by cases h), fun h => absurd (hpage.symm.trans h) (by simp)⟩)
    (fun h => absurd (hpage.symm.trans h) (by simp)) (fun _ => ?_)
    (fun _ {p r} h => by cases h) (fun _ h => by cases h)
  · obtain ⟨rfl, -⟩ := Content.ethereum.inj h
    exact hk
  · rw [paper, if_pos howner, Content.paper_of_tag htag]
    rfl

/-- **A page** of an account in `K` is written again. -/
theorem within_setPage (hp : L.held EthereumStorage k = some (p, rest))
    (haddress : p'.address = p.address) (hK : K p.address.key) :
    L.Within K P (L.setContent k (.storage p' rest')) := by
  have haccount : L.held EthereumAccount k = none := held_ethereum_of_storage hp
  refine within_setContent (held_storage.1 hp).1 (fun h => absurd (haccount.symm.trans h) (by simp))
    (fun _ {d r} h => by cases h) (fun {q r} hq => ⟨fun h => ?_, fun h => ?_⟩) (fun {q r} hq => ?_)
    (fun _ => (paper_of_held_storage hp).symm)
    (fun hnone => absurd (hnone.symm.trans hp) (by simp)) (fun _ h => by cases h)
  · obtain ⟨rfl, -⟩ := Content.storage.inj h
    exact absurd (haddress ▸ hK) hq
  · obtain ⟨rfl, -⟩ := Prod.mk.inj (Option.some.inj (hp.symm.trans h))
    exact absurd hK hq
  · obtain ⟨rfl, -⟩ := Prod.mk.inj (Option.some.inj (hp.symm.trans hq))
    exact ⟨p', rest', rfl, haddress⟩

/-- **A new page** of an account in `K`. -/
theorem within_newPage (howner : (L k).owner = programId)
    (htag : (L k).content.tag = some TAG_EMPTY) (hk : Seeded k) (hK : K p.address.key) :
    L.Within K P (L.setContent k (.storage p rest)) := by
  have haccount : L.held EthereumAccount k = none :=
    held_eq_none_of_tag htag Content.split_ethereum_of_tag
  have hpage : L.held EthereumStorage k = none :=
    held_eq_none_of_tag htag Content.split_storage_of_tag
  refine within_setContent howner (fun h => absurd (haccount.symm.trans h) (by simp))
    (fun _ {d r} h => by cases h) (fun {q r} hq => ⟨fun h => ?_, fun h => ?_⟩)
    (fun h => absurd (hpage.symm.trans h) (by simp)) (fun _ => ?_)
    (fun _ {q r} _ => hk) (fun _ h => by cases h)
  · obtain ⟨rfl, -⟩ := Content.storage.inj h
    exact absurd hK hq
  · exact absurd (hpage.symm.trans h) (by simp)
  · rw [paper, if_pos howner, Content.paper_of_tag htag]
    rfl

/-- **A paper** in `P` is written, or wiped. -/
theorem within_setPaper (howner : (L k).owner = programId) (haccount : L.held EthereumAccount k = none)
    (hpage : L.held EthereumStorage k = none) (hP : P k)
    (hc : ∀ {d rest}, c ≠ .ethereum d rest) (hc' : ∀ {p rest}, c ≠ .storage p rest)
    (hseeded : L.paper k = none → c.paper.isSome → Seeded k) :
    L.Within K P (L.setContent k c) :=
  within_setContent howner (fun h => absurd (haccount.symm.trans h) (by simp))
    (fun _ {_ _} h => (hc h).elim)
    (fun _ => ⟨fun h => (hc' h).elim, fun h => absurd (hpage.symm.trans h) (by simp)⟩)
    (fun h => absurd (hpage.symm.trans h) (by simp)) (fun h => (h hP).elim)
    (fun _ {_ _} h => (hc' h).elim) hseeded

/-- **An account grows**, or is blank. -/
theorem within_realloc (hL : L.Placed) (hapart : KeysApart) {a : Address}
    (howner : (L a.key).owner = programId) (hK : K a.key) (len : ℕ) :
    L.Within K P (L.setContent a.key ((L a.key).content.realloc len)) := by
  have hpage := hL.page_eq_none hapart a
  have hpaper := hL.paper_eq_none hapart a
  rcases hd : L.held EthereumAccount a.key with _ | ⟨d, rest⟩
  · have hkind : (L a.key).content.realloc len = .raw (resizeBytes (L a.key).content.bytes len) := by
      rw [held, if_pos howner] at hd hpage
      rw [paper, if_pos howner] at hpaper
      cases h : (L a.key).content with
      | raw data => rfl
      | ethereum d rest => exact absurd hd (by simp [h, split])
      | storage p rest => exact absurd hpage (by simp [h, split])
      | holder d rest => exact absurd hpaper (by simp [h, Content.paper])
      | state d rest => exact absurd hpaper (by simp [h, Content.paper])
      | finalized d rest => exact absurd hpaper (by simp [h, Content.paper])
    rw [hkind]
    exact within_setContent howner (fun h => absurd (hd.symm.trans h) (by simp))
      (fun _ {d r} h => by cases h)
      (fun _ => ⟨fun h => (by cases h), fun h => absurd (hpage.symm.trans h) (by simp)⟩)
      (fun h => absurd (hpage.symm.trans h) (by simp)) (fun _ => hpaper.symm)
      (fun _ {p r} h => by cases h) (fun _ h => by cases h)
  · rw [(held_ethereum.1 hd).2]
    exact within_setAccount hd rfl fun h => (h hK).elim

/-! ## Locks -/

omit [Platform] in
theorem mem_locked_iff {d : EthereumAccount} {rest : Bytes}
    (hd : L.held EthereumAccount k = some (d, rest)) : k ∈ L.locked ↔ d.rwBlocked = true := by
  constructor
  · rintro ⟨e, r, he, hlocked⟩
    obtain ⟨rfl, -⟩ := Prod.mk.inj (Option.some.inj (hd.symm.trans he))
    exact hlocked
  · exact fun h => ⟨d, rest, hd, h⟩

omit [Platform] in
/-- **The lock of one account** is what a write under its key decides. -/
theorem locked_setContent (hk : k ∈ (L.setContent k c).locked ↔ k ∈ L.locked) :
    (L.setContent k c).locked = L.locked := by
  ext j
  by_cases hj : j = k
  · rw [hj, hk]
  · rw [locked, locked, Set.mem_ofPred_eq, Set.mem_ofPred_eq, held_setContent, if_neg hj]

omit [Platform] in
theorem locked_setAccount (hd : L.held EthereumAccount k = some (d, rest))
    (hlock : d'.rwBlocked = d.rwBlocked) :
    (L.setContent k (.ethereum d' rest')).locked = L.locked := by
  refine locked_setContent ?_
  have hd' : (L.setContent k (.ethereum d' rest')).held EthereumAccount k = some (d', rest') := by
    rw [held_setContent, if_pos rfl, if_pos (held_ethereum.1 hd).1]
    rfl
  rw [mem_locked_iff hd', mem_locked_iff hd, hlock]

omit [Platform] in
/-- **Where no account was**, and no locked one is. -/
theorem locked_setOther (hnone : L.held EthereumAccount k = none)
    (hc : ∀ {d rest}, c = .ethereum d rest → d.rwBlocked = false) :
    (L.setContent k c).locked = L.locked := by
  refine locked_setContent ⟨?_, ?_⟩
  · rintro ⟨d, rest, hd, hlocked⟩
    rw [held_setContent, if_pos rfl] at hd
    split_ifs at hd with howner
    rw [hc (Content.eq_ethereum_of_split hd)] at hlocked
    exact nomatch hlocked
  · rintro ⟨d, rest, hd, -⟩
    rw [hnone] at hd
    cases hd

omit [Platform] in
/-- **Where no account was**, and none is. -/
theorem held_ethereum_setOther (hnone : L.held EthereumAccount k = none)
    (hc : ∀ {d rest}, c ≠ .ethereum d rest) (j : Pubkey) :
    (L.setContent k c).held EthereumAccount j = L.held EthereumAccount j := by
  rw [held_setContent]
  split_ifs with hj howner
  · rw [hj, hnone, ← Option.not_isSome_iff_eq_none]
    intro hsome
    obtain ⟨e, he⟩ := Option.isSome_iff_exists.1 hsome
    exact hc (Content.eq_ethereum_of_split he)
  · rw [hj, hnone]
  · rfl

omit [Platform] in
theorem accountExists_setOther (hnone : L.accountExists k = false)
    (hc : c.tag ≠ some (TAG EthereumAccount)) (j : Pubkey) :
    (L.setContent k c).accountExists j = L.accountExists j := by
  by_cases hj : j = k
  · rw [hj, hnone, accountExists, content_setContent_self, decide_eq_false hc, Bool.and_false]
  · rw [accountExists, setContent_of_ne hj]
    rfl

omit [Platform] in
theorem accountExists_of_storage {p : EthereumStorage × Bytes}
    (hp : L.held EthereumStorage k = some p) : L.accountExists k = false := by
  rw [accountExists, (held_storage.1 hp).2, Bool.and_eq_false_iff]
  exact .inr rfl

omit [Platform] in
theorem accountExists_of_paper (hp : (L.paper k).isSome) : L.accountExists k = false := by
  rw [paper] at hp
  split_ifs at hp with howner
  · rw [accountExists, Bool.and_eq_false_iff]
    refine .inr (decide_eq_false ?_)
    cases hc : (L k).content with
    | holder d rest => exact of_decide_eq_false rfl
    | state d rest => exact of_decide_eq_false rfl
    | finalized d rest => exact of_decide_eq_false rfl
    | _ => exact absurd hp (by simp [hc, Content.paper])
  · exact absurd hp (by simp)

omit [Platform] in
theorem Foreign.accountExists_eq (h : L.Foreign L') (k : Pubkey) :
    L'.accountExists k = L.accountExists k := by
  rw [accountExists, accountExists]
  by_cases howner : (L k).owner = programId
  · obtain ⟨howner', hcontent⟩ := h.keeps howner
    rw [howner, howner', hcontent]
  · by_cases howner' : (L' k).owner = programId
    · obtain ⟨n, hn⟩ := h.born howner howner'
      have htag : ¬(L' k).content.tag = some (TAG EthereumAccount) := by
        rw [hn]
        rcases n with _ | n
        · exact of_decide_eq_false rfl
        · exact of_decide_eq_false rfl
      rw [decide_eq_false howner, decide_eq_false htag, Bool.and_false, Bool.false_and]
    · rw [decide_eq_false howner, decide_eq_false howner', Bool.false_and, Bool.false_and]

variable {keys : List Pubkey}

omit [Platform] in
/-- **Locking** the accounts under some keys. -/
theorem locked_locking_true :
    (L.locking true keys).locked =
      L.locked ∪ {k | k ∈ keys ∧ (L.held EthereumAccount k).isSome = true} := by
  ext k
  rw [Set.mem_union, Set.mem_ofPred_eq]
  rcases hd : L.held EthereumAccount k with _ | ⟨d, rest⟩
  · have hnone : (L.locking true keys).held EthereumAccount k = none := by
      rw [held_ethereum_locking, hd]
      rfl
    simp [locked, hd, hnone]
  · have hd' : (L.locking true keys).held EthereumAccount k =
        some (if k ∈ keys then d.locked true else d, rest) := by
      rw [held_ethereum_locking, hd]
      rfl
    rw [mem_locked_iff hd', mem_locked_iff hd]
    by_cases hk : k ∈ keys
    · simp [hk, EthereumAccount.locked]
    · simp [hk]

omit [Platform] in
/-- **Unlocking** them. -/
theorem locked_locking_false : (L.locking false keys).locked = L.locked \ {k | k ∈ keys} := by
  ext k
  rw [Set.mem_sdiff, Set.mem_ofPred_eq]
  rcases hd : L.held EthereumAccount k with _ | ⟨d, rest⟩
  · have hnone : (L.locking false keys).held EthereumAccount k = none := by
      rw [held_ethereum_locking, hd]
      rfl
    simp [locked, hd, hnone]
  · have hd' : (L.locking false keys).held EthereumAccount k =
        some (if k ∈ keys then d.locked false else d, rest) := by
      rw [held_ethereum_locking, hd]
      rfl
    rw [mem_locked_iff hd', mem_locked_iff hd]
    by_cases hk : k ∈ keys
    · simp [hk, EthereumAccount.locked]
    · simp [hk]

omit [Platform] in
theorem paper_locking {b : Bool} : (L.locking b keys).paper k = L.paper k := by
  rcases hd : L.held EthereumAccount k with _ | ⟨d, rest⟩
  · rw [paper, paper, locking_of_none hd]
  · have hd' : (L.locking b keys).held EthereumAccount k =
        some (if k ∈ keys then d.locked b else d, rest) := by
      rw [held_ethereum_locking, hd]
      rfl
    rw [paper_of_held_ethereum hd, paper_of_held_ethereum hd']

/-- **Locks** are turned within the accounts they are the locks of. -/
theorem within_locking {b : Bool}
    (hK : ∀ k ∈ keys, (L.held EthereumAccount k).isSome = true → K k) :
    L.Within K P (L.locking b keys) := by
  have hpage : ∀ k, (L.locking b keys).held EthereumStorage k = L.held EthereumStorage k :=
    fun k => held_locking fun _ _ => rfl
  refine ⟨fun {k d rest} hd => ?_, fun {k d rest} hnone hd => ?_, fun _ => by rw [hpage],
    fun {k p rest} hp => ⟨p, rest, (hpage k).trans hp, rfl⟩, fun _ => paper_locking,
    fun {k} hnone hsome => ?_, fun {k} hnone hsome => ?_⟩
  · refine ⟨if k ∈ keys then d.locked b else d, rest, ?_, ?_, fun hk => ?_⟩
    · rw [held_ethereum_locking, hd]
      rfl
    · split_ifs <;> rfl
    · rw [if_neg fun hmem => hk (hK k hmem (hd ▸ rfl))]
      exact ⟨rfl, rfl⟩
  · rw [held_ethereum_locking, hnone] at hd
    cases hd
  · rw [hpage, hnone] at hsome
    exact nomatch hsome
  · rw [paper_locking, hnone] at hsome
    exact nomatch hsome

end Ledger

end NeonEvm
