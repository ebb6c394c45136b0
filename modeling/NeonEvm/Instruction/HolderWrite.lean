import NeonEvm.AccountStorage.History
import NeonEvm.Account.Operator
import NeonEvm.Lib.Pieces

/-!
# Instruction/HolderWrite — a transaction arrives in chunks

    hash · offset · chunk       written behind the holder's header, the length a running maximum

A holder with another hash is wiped first, and a finalized account becomes a holder.
-/

namespace NeonEvm

open Exec Packable Chunks

namespace Holder

/-- `Holder::clear`. -/
def clear (d : Holder) (rest : Bytes) : Holder × Bytes :=
  ({ d with transactionHash := 0, transactionLen := 0 }, List.replicate rest.length 0)

/-- `Holder::write`. -/
def write (d : Holder) (rest : Bytes) (offset : ℕ) (bytes : Bytes) : Fallible (Holder × Bytes) :=
  match checkedAdd (SIZE Holder) offset with
  | none => fail .integerOverflow
  | some start =>
    match checkedAdd start bytes.length with
    | none => fail .integerOverflow
    | some stop => do
      assertThat (stop ≤ SIZE Holder + rest.length) .index
      pure ({ d with transactionLen := max d.transactionLen (offset + bytes.length) },
        overwrite rest offset bytes)

/-- A holder with another hash is wiped, and takes the new one. -/
def rehash (d : Holder) (rest : Bytes) (transactionHash : U256) : Holder × Bytes :=
  if d.transactionHash ≠ transactionHash then
    ({ (d.clear rest).1 with transactionHash }, (d.clear rest).2)
  else (d, rest)

/-- `Holder::transaction`; nothing where the slice is out of range. -/
def transaction (d : Holder) (rest : Bytes) : Option Bytes :=
  if d.transactionLen ≤ rest.length then some (rest.take d.transactionLen) else none

end Holder

variable [Platform] [Runtime]

/-- The holder that an instruction is given; a finalized account becomes one. -/
def holderOf (info : AccountMeta) (transactionHash : U256) : Program (Holder × Bytes) := do
  let tag ← accountTag info.pubkey
  if tag = TAG Holder then openAccount Holder info.pubkey
  else if tag = TAG FinalizedState then do
    let finalized ← fromAccount FinalizedState info.pubkey
    replaceAccount info (⟨finalized.owner, transactionHash, 0⟩ : Holder)
    openAccount Holder info.pubkey
  else fail (.accountInvalidTag info.pubkey (TAG Holder))

/-- `account_holder_write::process`. -/
def accountHolderWrite (accounts : List AccountMeta) (instruction : Bytes) : Program Unit := do
  let transactionHash := U256.ofBytes (← lift (sliceOf instruction 0 32))
  let offset := ofLeBytes (← lift (sliceOf instruction 32 40))
  let data := instruction.drop 40
  let holderInfo ← ofOption .index accounts[0]?
  let (holder, rest) ← holderOf holderInfo transactionHash
  let operator ← operatorFromAccountNotWhitelisted (← ofOption .index accounts[1]?)
  failIf (holder.owner ≠ operator) (.holderInvalidOwner holder.owner operator)
  let prepared := holder.rehash rest transactionHash
  let written ← lift (prepared.1.write prepared.2 offset data)
  assertThat holderInfo.isWritable .assertion
  modify (·.setContent holderInfo.pubkey (.holder written.1 written.2))

/-- What an instruction leaves of the accounts: nothing of it where it does not succeed. -/
def settle {α : Type} (x : Program α) (L : Ledger) : Ledger :=
  match x L with
  | .ok _ L' => L'
  | _ => L

/-! ## What one write does -/

/-- An instruction, with its accounts. -/
structure HolderWrite where
  accounts : List AccountMeta
  instruction : Bytes

namespace HolderWrite

def run (w : HolderWrite) : Program Unit := accountHolderWrite w.accounts w.instruction

def transactionHash (w : HolderWrite) : U256 := U256.ofBytes (w.instruction.take 32)

def offset (w : HolderWrite) : ℕ := ofLeBytes ((w.instruction.drop 32).take 8)

def chunk (w : HolderWrite) : Bytes := w.instruction.drop 40

end HolderWrite

/-- The holder under a key as a write with the hash finds it, behind the wiping. -/
def Ledger.prepared (L : Ledger) (key : Pubkey) (transactionHash : U256) :
    Option (Holder × Bytes) :=
  match L.held Holder key with
  | some (d, rest) => some (d.rehash rest transactionHash)
  | none => (L.held FinalizedState key).map fun f =>
    (⟨f.1.owner, transactionHash, 0⟩,
      List.replicate ((L key).content.len - SIZE Holder) 0)

variable {L L' : Ledger} {w : HolderWrite} {key : Pubkey} {hash : U256} {u : Unit}

omit [Platform] [Runtime] in
theorem rehash_hash (d : Holder) (rest : Bytes) (hash : U256) :
    (d.rehash rest hash).1.transactionHash = hash := by
  rw [Holder.rehash]
  split_ifs with h
  · rfl
  · exact not_not.1 h

omit [Platform] [Runtime] in
theorem rehash_of_eq {d : Holder} {rest : Bytes} (h : d.transactionHash = hash) :
    d.rehash rest hash = (d, rest) := if_neg (not_not.2 h)

omit [Platform] in
theorem prepared_of_holder {d : Holder} {rest : Bytes} (h : L.held Holder key = some (d, rest))
    (hhash : d.transactionHash = hash) : L.prepared key hash = some (d, rest) := by
  rw [Ledger.prepared, h]
  exact congrArg some (rehash_of_eq hhash)

omit [Platform] [Runtime] in
theorem sliceOf_ok {bytes out : Bytes} {start stop : ℕ}
    (h : sliceOf bytes start stop () = .ok out ()) :
    stop ≤ bytes.length ∧ out = (bytes.drop start).take (stop - start) := by
  unfold sliceOf at h
  split_ifs at h with hle
  · exact ⟨hle.2, ((pure_eq_ok.1 h).1).symm⟩
  · cases h

omit [Platform] in
theorem held_holder {d : Holder} {rest : Bytes} :
    L.held Holder key = some (d, rest) ↔
      (L key).owner = programId ∧ (L key).content = .holder d rest := by
  unfold Ledger.held
  split
  · cases h : (L key).content <;> simp_all [split]
  · simp_all

omit [Platform] in
theorem held_finalized {d : FinalizedState} {rest : Bytes} :
    L.held FinalizedState key = some (d, rest) ↔
      (L key).owner = programId ∧ (L key).content = .finalized d rest := by
  unfold Ledger.held
  split
  · cases h : (L key).content <;> simp_all [split]
  · simp_all

omit [Platform] in
theorem held_written {d : Holder} {rest : Bytes} (howner : (L key).owner = programId) :
    (L.setContent key (.holder d rest)).held Holder key = some (d, rest) := by
  rw [Ledger.held_setContent, if_pos rfl, if_pos howner]
  rfl

omit [Platform] in
theorem accountTag_eq_ok {tag : UInt8} :
    accountTag key L = .ok tag L' ↔
      (L key).owner = programId ∧ (L key).content.tag = some tag ∧ L = L' := by
  simp only [accountTag, accountAt, bind_eq_ok, gets_eq_ok, failIf_eq_ok]
  constructor
  · rintro ⟨_, _, ⟨rfl, rfl⟩, _, _, ⟨howner, rfl⟩, h⟩
    rcases htag : (L key).content.tag with _ | tag'
    · simp only [htag] at h
      exact (fail_eq_ok.1 h).elim
    · simp only [htag] at h
      obtain ⟨rfl, rfl⟩ := pure_eq_ok.1 h
      exact ⟨by simpa using howner, rfl, rfl⟩
  · rintro ⟨howner, htag, rfl⟩
    refine ⟨_, _, ⟨rfl, rfl⟩, (), L, ⟨by simpa using howner, rfl⟩, ?_⟩
    simp only [htag]
    rfl

omit [Platform] [Runtime] in
theorem replaceAccount_eq_ok {info : AccountMeta} {d : Holder} :
    replaceAccount info d L = .ok u L' ↔
      info.isWritable = true ∧ SIZE Holder ≤ (L info.pubkey).content.len ∧
        L.setContent info.pubkey (.holder d
          (List.replicate ((L info.pubkey).content.len - SIZE Holder) 0)) = L' := by
  simp only [replaceAccount, accountAt, bind_eq_ok, gets_eq_ok, failIf_eq_ok, modify_eq_ok]
  constructor
  · rintro ⟨_, _, ⟨hwritable, rfl⟩, _, _, ⟨rfl, rfl⟩, _, _, ⟨hlen, rfl⟩, rfl⟩
    exact ⟨by simpa using hwritable, by simpa using hlen, rfl⟩
  · rintro ⟨hwritable, hlen, rfl⟩
    exact ⟨(), L, ⟨by simpa using hwritable, rfl⟩, _, _, ⟨rfl, rfl⟩, (), L,
      ⟨by simpa using hlen, rfl⟩, rfl⟩

omit [Platform] in
theorem openAccount_holder {d : Holder} {rest : Bytes} (h : L.held Holder key = some (d, rest)) :
    openAccount Holder key L = .ok (d, rest) L := by
  obtain ⟨howner, hcontent⟩ := held_holder.1 h
  have hlen : ¬(L key).content.len < SIZE Holder := by
    rw [hcontent]
    exact Nat.not_lt.2 (Nat.le_add_right ..)
  simp only [openAccount, accountAt, bind_eq_ok, gets_eq_ok, failIf_eq_ok]
  exact ⟨_, _, ⟨rfl, rfl⟩, (), L, ⟨by simpa using howner, rfl⟩, (), L, ⟨by simpa using hlen, rfl⟩,
    by rw [hcontent]; rfl⟩

omit [Platform] in
theorem fromAccount_finalized {f : FinalizedState} {rest : Bytes}
    (h : L.held FinalizedState key = some (f, rest)) :
    fromAccount FinalizedState key L = .ok f L := by
  obtain ⟨howner, hcontent⟩ := held_finalized.1 h
  have hlen : ¬(L key).content.len < SIZE FinalizedState := by
    rw [hcontent]
    exact Nat.not_lt.2 (Nat.le_add_right ..)
  simp only [fromAccount, openAccount, accountAt, bind_eq_ok, gets_eq_ok, failIf_eq_ok,
    pure_eq_ok]
  exact ⟨(f, rest), L, ⟨_, _, ⟨rfl, rfl⟩, (), L, ⟨by simpa using howner, rfl⟩, (), L,
    ⟨by simpa using hlen, rfl⟩, by rw [hcontent]; rfl⟩, rfl, rfl⟩

/-- What the holder of an instruction is: one that is there, or a finalized account that is
converted. -/
def HolderOf (info : AccountMeta) (hash : U256) (L : Ledger) (d : Holder) (rest : Bytes)
    (L' : Ledger) : Prop :=
  L.held Holder info.pubkey = some (d, rest) ∧ L' = L ∨
    ∃ f frest, L.held FinalizedState info.pubkey = some (f, frest) ∧ info.isWritable = true ∧
      SIZE Holder ≤ (L info.pubkey).content.len ∧ d = ⟨f.owner, hash, 0⟩ ∧
      rest = List.replicate ((L info.pubkey).content.len - SIZE Holder) 0 ∧
      L' = L.setContent info.pubkey (.holder d rest)

omit [Platform] in
/-- **The holder of an instruction.** -/
theorem holderOf_eq_ok {info : AccountMeta} {d : Holder} {rest : Bytes} :
    holderOf info hash L = .ok (d, rest) L' ↔ HolderOf info hash L d rest L' := by
  have htags : (TAG FinalizedState : UInt8) ≠ TAG Holder := by decide
  rw [holderOf, bind_eq_ok]
  constructor
  · rintro ⟨tag, L₁, htag, h⟩
    obtain ⟨-, -, rfl⟩ := accountTag_eq_ok.1 htag
    split_ifs at h with hholder hfinalized
    · obtain ⟨rfl, hheld⟩ := openAccount_ok h
      exact .inl ⟨hheld, rfl⟩
    · obtain ⟨f, L₁, hf, h⟩ := bind_eq_ok.1 h
      obtain ⟨rfl, frest, hheld⟩ := fromAccount_ok hf
      obtain ⟨_, L₂, hreplace, hopen⟩ := bind_eq_ok.1 h
      obtain ⟨hwritable, hlen, rfl⟩ := replaceAccount_eq_ok.1 hreplace
      obtain ⟨rfl, hheld'⟩ := openAccount_ok hopen
      rw [held_written (held_finalized.1 hheld).1] at hheld'
      obtain ⟨rfl, rfl⟩ := Prod.mk.inj (Option.some.inj hheld')
      exact .inr ⟨f, frest, hheld, hwritable, hlen, rfl, rfl, rfl⟩
    · exact (fail_eq_ok.1 h).elim
  · rintro (⟨hheld, rfl⟩ | ⟨f, frest, hheld, hwritable, hlen, rfl, rfl, rfl⟩)
    · obtain ⟨howner, hcontent⟩ := held_holder.1 hheld
      refine ⟨TAG Holder, L', accountTag_eq_ok.2 ⟨howner, by rw [hcontent]; rfl, rfl⟩, ?_⟩
      rw [if_pos rfl]
      exact openAccount_holder hheld
    · obtain ⟨howner, hcontent⟩ := held_finalized.1 hheld
      refine ⟨TAG FinalizedState, L, accountTag_eq_ok.2 ⟨howner, by rw [hcontent]; rfl, rfl⟩, ?_⟩
      rw [if_neg htags, if_pos rfl]
      refine bind_eq_ok.2 ⟨f, L, fromAccount_finalized hheld, bind_eq_ok.2 ⟨(), _,
        replaceAccount_eq_ok.2 ⟨hwritable, hlen, rfl⟩, openAccount_holder (held_written howner)⟩⟩

omit [Platform] in
theorem HolderOf.prepared {info : AccountMeta} {d : Holder} {rest : Bytes}
    (h : HolderOf info hash L d rest L') :
    (L info.pubkey).owner = programId ∧
      L.prepared info.pubkey hash = some (d.rehash rest hash) ∧
      ∀ c, L'.setContent info.pubkey c = L.setContent info.pubkey c := by
  rcases h with ⟨hheld, rfl⟩ | ⟨f, frest, hheld, -, -, rfl, rfl, rfl⟩
  · exact ⟨(held_holder.1 hheld).1, by rw [Ledger.prepared, hheld], fun _ => rfl⟩
  · obtain ⟨howner, hcontent⟩ := held_finalized.1 hheld
    have hnone : L.held Holder info.pubkey = none := by
      rw [Ledger.held, if_pos howner, hcontent]
      rfl
    refine ⟨howner, ?_, fun c => Ledger.setContent_setContent⟩
    rw [Ledger.prepared, hnone, hheld, rehash_of_eq rfl]
    rfl

omit [Platform] [Runtime] in
theorem checkedAdd_eq_some {a b c : ℕ} (h : checkedAdd a b = some c) : a + b = c := by
  unfold checkedAdd at h
  split_ifs at h
  exact Option.some.inj h

omit [Platform] [Runtime] in
/-- **A write** ends inside of the account. -/
theorem Holder.write_ok {d : Holder} {rest bytes : Bytes} {offset : ℕ} {e : Holder × Bytes}
    (h : d.write rest offset bytes () = .ok e ()) :
    offset + bytes.length ≤ rest.length ∧
      e = ({ d with transactionLen := max d.transactionLen (offset + bytes.length) },
        overwrite rest offset bytes) := by
  unfold Holder.write at h
  rcases hstart : checkedAdd (SIZE Holder) offset with _ | start
  · simp only [hstart] at h
    exact (fail_eq_ok.1 h).elim
  · simp only [hstart] at h
    rcases hstop : checkedAdd start bytes.length with _ | stop
    · simp only [hstop] at h
      exact (fail_eq_ok.1 h).elim
    · simp only [hstop] at h
      obtain ⟨_, _, hassert, hpure⟩ := bind_eq_ok.1 h
      obtain ⟨hfit, -⟩ := assertThat_eq_ok.1 hassert
      obtain ⟨rfl, -⟩ := pure_eq_ok.1 hpure
      have hfit : stop ≤ SIZE Holder + rest.length := of_decide_eq_true hfit
      have hbegin := checkedAdd_eq_some hstart
      have hend := checkedAdd_eq_some hstop
      exact ⟨by omega, rfl⟩

omit [Platform] [Runtime] in
/-- **What fits is written.** -/
theorem Holder.write_of_fits {rest bytes : Bytes} {offset : ℕ} (d : Holder)
    (hsize : SIZE Holder + rest.length < USIZE) (hfit : offset + bytes.length ≤ rest.length) :
    d.write rest offset bytes () =
      .ok ({ d with transactionLen := max d.transactionLen (offset + bytes.length) },
        overwrite rest offset bytes) () := by
  have hstart : checkedAdd (SIZE Holder) offset = some (SIZE Holder + offset) :=
    if_pos (by omega)
  have hstop : checkedAdd (SIZE Holder + offset) bytes.length =
      some (SIZE Holder + offset + bytes.length) := if_pos (by omega)
  unfold Holder.write
  simp only [hstart, hstop]
  refine bind_eq_ok.2 ⟨(), (), assertThat_eq_ok.2 ⟨decide_eq_true ?_, rfl⟩, rfl⟩
  omega

omit [Platform] [Runtime] in
theorem length_rehash (d : Holder) (rest : Bytes) (hash : U256) :
    (d.rehash rest hash).2.length = rest.length := by
  rw [Holder.rehash]
  split_ifs
  · exact List.length_replicate
  · rfl

omit [Platform] [Runtime] in
theorem owner_rehash (d : Holder) (rest : Bytes) (hash : U256) :
    (d.rehash rest hash).1.owner = d.owner := by
  rw [Holder.rehash]
  split_ifs <;> rfl

omit [Runtime] in
theorem operatorFromAccountNotWhitelisted_eq_ok {info : AccountMeta} {operator : Pubkey} :
    operatorFromAccountNotWhitelisted info L = .ok operator L' ↔
      (L info.pubkey).owner = Platform.systemProgramId ∧ info.isSigner = true ∧
        (L info.pubkey).content.len = 0 ∧ info.pubkey = operator ∧ L = L' := by
  simp only [operatorFromAccountNotWhitelisted, accountAt, bind_eq_ok, gets_eq_ok, failIf_eq_ok,
    pure_eq_ok]
  constructor
  · rintro ⟨_, _, ⟨rfl, rfl⟩, _, _, ⟨howner, rfl⟩, _, _, ⟨hsigner, rfl⟩, _, _, ⟨hlen, rfl⟩, rfl, rfl⟩
    exact ⟨by simpa using howner, by simpa using hsigner, by simpa using hlen, rfl, rfl⟩
  · rintro ⟨howner, hsigner, hlen, rfl, rfl⟩
    exact ⟨_, _, ⟨rfl, rfl⟩, (), L, ⟨by simpa using howner, rfl⟩, (), L,
      ⟨by simpa using hsigner, rfl⟩, (), L, ⟨by simpa using hlen, rfl⟩, rfl, rfl⟩

/-- **All that a write does**: the holder as it is prepared, with the chunk in it. -/
theorem HolderWrite.run_ok (h : w.run L = .ok u L') :
    ∃ info d rest, w.accounts[0]? = some info ∧ (L info.pubkey).owner = programId ∧
      L.prepared info.pubkey w.transactionHash = some (d, rest) ∧
      d.transactionHash = w.transactionHash ∧ w.offset + w.chunk.length ≤ rest.length ∧
      L' = L.setContent info.pubkey (.holder
        { d with transactionLen := max d.transactionLen (w.offset + w.chunk.length) }
        (overwrite rest w.offset w.chunk)) := by
  unfold HolderWrite.run accountHolderWrite at h
  obtain ⟨hashBytes, _, hhash, h⟩ := bind_eq_ok.1 h
  obtain ⟨hslice, rfl⟩ := lift_eq_ok.1 hhash
  obtain ⟨-, rfl⟩ := sliceOf_ok hslice
  obtain ⟨offsetBytes, _, hoffset, h⟩ := bind_eq_ok.1 h
  obtain ⟨hslice, rfl⟩ := lift_eq_ok.1 hoffset
  obtain ⟨-, rfl⟩ := sliceOf_ok hslice
  obtain ⟨info, _, hinfo, h⟩ := bind_eq_ok.1 h
  obtain ⟨hfirst, rfl⟩ := ofOption_eq_ok.1 hinfo
  obtain ⟨⟨d, rest⟩, L₁, hholder, h⟩ := bind_eq_ok.1 h
  obtain ⟨howner, hprepared, hset⟩ := (holderOf_eq_ok.1 hholder).prepared
  obtain ⟨operatorInfo, _, hoperatorInfo, h⟩ := bind_eq_ok.1 h
  obtain ⟨-, rfl⟩ := ofOption_eq_ok.1 hoperatorInfo
  obtain ⟨operator, _, hoperator, h⟩ := bind_eq_ok.1 h
  obtain ⟨-, -, -, -, rfl⟩ := operatorFromAccountNotWhitelisted_eq_ok.1 hoperator
  obtain ⟨_, _, hfail, h⟩ := bind_eq_ok.1 h
  obtain ⟨-, rfl⟩ := failIf_eq_ok.1 hfail
  obtain ⟨written, _, hwrite, h⟩ := bind_eq_ok.1 h
  obtain ⟨hwritten, rfl⟩ := lift_eq_ok.1 hwrite
  obtain ⟨hfit, rfl⟩ := Holder.write_ok hwritten
  obtain ⟨_, _, hassert, h⟩ := bind_eq_ok.1 h
  obtain ⟨-, rfl⟩ := assertThat_eq_ok.1 hassert
  obtain rfl := modify_eq_ok.1 h
  exact ⟨info, _, _, hfirst, howner, hprepared, rehash_hash .., hfit, hset _⟩

/-- The instruction may write to its holder: the accounts are there, and its owner signed. -/
structure HolderWrite.Authorised (w : HolderWrite) (L : Ledger) (info operator : AccountMeta) :
    Prop where
  complete : 40 ≤ w.instruction.length
  first : w.accounts[0]? = some info
  second : w.accounts[1]? = some operator
  isWritable : info.isWritable = true
  isSigner : operator.isSigner = true
  ownerOfOperator : (L operator.pubkey).owner = Platform.systemProgramId
  empty : (L operator.pubkey).content.len = 0
  owner : (∃ d rest, L.held Holder info.pubkey = some (d, rest) ∧ d.owner = operator.pubkey) ∨
    ∃ f rest, L.held FinalizedState info.pubkey = some (f, rest) ∧ f.owner = operator.pubkey
  ne : info.pubkey ≠ operator.pubkey
  size : SIZE Holder ≤ (L info.pubkey).content.len ∧ (L info.pubkey).content.len < USIZE

omit [Platform] [Runtime] in
theorem sliceOf_eq_ok {bytes : Bytes} {start stop : ℕ} (hle : start ≤ stop)
    (hlen : stop ≤ bytes.length) :
    sliceOf bytes start stop () = .ok ((bytes.drop start).take (stop - start)) () := by
  rw [sliceOf, if_pos ⟨hle, hlen⟩]
  rfl

/-- **What fits is written.** -/
theorem HolderWrite.run_of_fits {info operator : AccountMeta} (h : w.Authorised L info operator)
    (hfit : w.offset + w.chunk.length ≤ (L info.pubkey).content.len - SIZE Holder) :
    ∃ L', w.run L = .ok () L' := by
  obtain ⟨d, rest, L₁, hholder, howner, hlen, hoperator⟩ : ∃ d rest L₁,
      HolderOf info w.transactionHash L d rest L₁ ∧ d.owner = operator.pubkey ∧
        rest.length = (L info.pubkey).content.len - SIZE Holder ∧
        L₁ operator.pubkey = L operator.pubkey := by
    rcases h.owner with ⟨d, rest, hheld, howner⟩ | ⟨f, rest, hheld, howner⟩
    · refine ⟨d, rest, L, .inl ⟨hheld, rfl⟩, howner, ?_, rfl⟩
      rw [(held_holder.1 hheld).2]
      exact (Nat.add_sub_cancel_left ..).symm
    · exact ⟨_, _, _, .inr ⟨f, rest, hheld, h.isWritable, h.size.1, rfl, rfl, rfl⟩, howner,
        List.length_replicate, Ledger.setContent_of_ne h.ne.symm⟩
  have hoperator' : operatorFromAccountNotWhitelisted operator L₁ = .ok operator.pubkey L₁ := by
    refine operatorFromAccountNotWhitelisted_eq_ok.2 ⟨?_, h.isSigner, ?_, rfl, rfl⟩
    · rw [hoperator]
      exact h.ownerOfOperator
    · rw [hoperator]
      exact h.empty
  have hcomplete := h.complete
  have hsize := h.size
  have hlength := length_rehash d rest w.transactionHash
  have hwrite := @Holder.write_of_fits (d.rehash rest w.transactionHash).2 w.chunk w.offset
    (d.rehash rest w.transactionHash).1 (by omega) (by omega)
  obtain ⟨written, hwrite⟩ : ∃ written, (d.rehash rest w.transactionHash).1.write
      (d.rehash rest w.transactionHash).2 w.offset w.chunk () = .ok written () := ⟨_, hwrite⟩
  refine ⟨L₁.setContent info.pubkey (.holder written.1 written.2), ?_⟩
  unfold HolderWrite.run accountHolderWrite
  refine bind_eq_ok.2 ⟨_, L, lift_eq_ok.2 ⟨sliceOf_eq_ok (Nat.zero_le _) (by omega), rfl⟩, ?_⟩
  refine bind_eq_ok.2 ⟨_, L, lift_eq_ok.2 ⟨sliceOf_eq_ok (by decide) hcomplete, rfl⟩, ?_⟩
  refine bind_eq_ok.2 ⟨info, L, ofOption_eq_ok.2 ⟨h.first, rfl⟩, ?_⟩
  refine bind_eq_ok.2 ⟨(d, rest), L₁, holderOf_eq_ok.2 hholder, ?_⟩
  refine bind_eq_ok.2 ⟨operator, L₁, ofOption_eq_ok.2 ⟨h.second, rfl⟩, ?_⟩
  refine bind_eq_ok.2 ⟨operator.pubkey, L₁, hoperator', ?_⟩
  refine bind_eq_ok.2 ⟨(), L₁, failIf_eq_ok.2 ⟨by simpa using howner, rfl⟩, ?_⟩
  refine bind_eq_ok.2 ⟨_, L₁, lift_eq_ok.2 ⟨hwrite, rfl⟩, ?_⟩
  exact bind_eq_ok.2 ⟨(), L₁, assertThat_eq_ok.2 ⟨h.isWritable, rfl⟩, modify_eq_ok.2 rfl⟩

omit [Platform] in
/-- The bytes behind the header are as many as they were. -/
theorem length_prepared {d : Holder} {rest : Bytes} (h : L.prepared key hash = some (d, rest)) :
    rest.length = (L key).content.len - SIZE Holder := by
  rw [Ledger.prepared] at h
  rcases hheld : L.held Holder key with _ | ⟨d₀, rest₀⟩
  · rw [hheld] at h
    obtain ⟨f, -, hf⟩ := Option.map_eq_some_iff.1 h
    rw [← (Prod.mk.inj hf).2, List.length_replicate]
  · rw [hheld] at h
    have hrest : (d₀.rehash rest₀ hash).2 = rest := congrArg Prod.snd (Option.some.inj h)
    rw [(held_holder.1 hheld).2, ← hrest, length_rehash]
    exact (Nat.add_sub_cancel_left ..).symm

omit [Platform] in
/-- The owner is the one that the account has. -/
theorem owner_prepared {d : Holder} {rest : Bytes} {owner : Pubkey}
    (h : L.prepared key hash = some (d, rest))
    (howner : (∃ d rest, L.held Holder key = some (d, rest) ∧ d.owner = owner) ∨
      ∃ f rest, L.held FinalizedState key = some (f, rest) ∧ f.owner = owner) :
    d.owner = owner := by
  rw [Ledger.prepared] at h
  rcases howner with ⟨d₀, rest₀, hheld, rfl⟩ | ⟨f, rest₀, hheld, rfl⟩
  · rw [hheld] at h
    have hd : (d₀.rehash rest₀ hash).1 = d := congrArg Prod.fst (Option.some.inj h)
    rw [← hd, owner_rehash]
  · have hnone : L.held Holder key = none := by
      rw [Ledger.held, if_pos (held_finalized.1 hheld).1, (held_finalized.1 hheld).2]
      rfl
    rw [hnone, hheld] at h
    have hd : (⟨f.owner, hash, 0⟩ : Holder) = d := congrArg Prod.fst (Option.some.inj h)
    rw [← hd]

/-- **A write leaves the others authorised.** -/
theorem HolderWrite.Authorised.after {v : HolderWrite} {info info' operator : AccountMeta}
    (h : v.Authorised L info operator) (hfirst : w.accounts[0]? = some info')
    (hkey : info'.pubkey = info.pubkey) (hrun : w.run L = .ok u L') :
    v.Authorised L' info operator ∧ (L' info.pubkey).content.len = (L info.pubkey).content.len := by
  obtain ⟨info₀, d, rest, hinfo, hours, hprepared, -, hfit, rfl⟩ := HolderWrite.run_ok hrun
  obtain rfl : info' = info₀ := Option.some.inj (hfirst.symm.trans hinfo)
  rw [hkey] at hours hprepared ⊢
  have hlength := length_prepared hprepared
  have hsize := h.size.1
  have hlen : ((L.setContent info.pubkey (.holder
      { d with transactionLen := max d.transactionLen (w.offset + w.chunk.length) }
      (overwrite rest w.offset w.chunk))) info.pubkey).content.len =
        (L info.pubkey).content.len := by
    rw [Ledger.content_setContent_self]
    show SIZE Holder + (overwrite rest w.offset w.chunk).length = _
    rw [length_overwrite hfit]
    omega
  have howner := owner_prepared hprepared h.owner
  refine ⟨⟨h.complete, h.first, h.second, h.isWritable, h.isSigner, ?_, ?_,
    .inl ⟨_, _, held_written hours, howner⟩, h.ne, ?_⟩, hlen⟩
  · rw [Ledger.setContent_of_ne h.ne.symm]
    exact h.ownerOfOperator
  · rw [Ledger.setContent_of_ne h.ne.symm]
    exact h.empty
  · rw [hlen]
    exact h.size

/-! ## The message -/

/-- The instruction carries a piece of the message, under the hash and for the holder. -/
structure HolderWrite.Carries (w : HolderWrite) (key : Pubkey) (hash : U256) (t : Bytes) :
    Prop where
  key : ∀ {info}, w.accounts[0]? = some info → info.pubkey = key
  hash : w.transactionHash = hash
  piece : IsPiece t w.offset w.chunk

/-- What was received by a holder: the pieces are in place, and the length is that of the longest
reach. -/
def Received (key : Pubkey) (hash : U256) (t : Bytes) (done : List HolderWrite) (L : Ledger) :
    Prop :=
  ∀ {d rest}, L.prepared key hash = some (d, rest) → d.transactionLen ≤ t.length ∧
    Agrees t (fun i => ∃ w ∈ done, Within w.offset w.chunk i) rest ∧
    ∀ w ∈ done, w.offset + w.chunk.length ≤ d.transactionLen ∧
      w.offset + w.chunk.length ≤ rest.length

/-- **One more piece.** -/
theorem Received.step {t : Bytes} {done : List HolderWrite} (h : Received key hash t done L)
    (hw : w.Carries key hash t) (hrun : w.run L = .ok u L') :
    Received key hash t (done ++ [w]) L' ∧ ∃ d rest, L'.held Holder key = some (d, rest) ∧
      d.transactionHash = hash := by
  obtain ⟨info, d, rest, hinfo, howner, hprepared, hhash, hfit, rfl⟩ := HolderWrite.run_ok hrun
  obtain rfl := hw.key hinfo
  obtain rfl := hw.hash
  obtain ⟨hlen, hagrees, hdone⟩ := h hprepared
  have hlength : (overwrite rest w.offset w.chunk).length = rest.length := length_overwrite hfit
  have hheld := @held_written _ L info.pubkey
    { d with transactionLen := max d.transactionLen (w.offset + w.chunk.length) }
    (overwrite rest w.offset w.chunk) howner
  refine ⟨fun {d' rest'} h' => ?_, _, _, hheld, hhash⟩
  rw [prepared_of_holder hheld hhash] at h'
  obtain ⟨rfl, rfl⟩ := Prod.mk.inj (Option.some.inj h')
  refine ⟨max_le hlen hw.piece.fits, fun i hi => ?_, fun v hv => ?_⟩
  · refine hagrees.overwrite hw.piece hfit i ?_
    obtain ⟨v, hv, hwithin⟩ := hi
    rcases List.mem_append.1 hv with hv | hv
    · exact .inl ⟨v, hv, hwithin⟩
    · exact .inr (List.mem_singleton.1 hv ▸ hwithin)
  · rw [hlength]
    rcases List.mem_append.1 hv with hv | hv
    · exact ⟨(hdone v hv).1.trans (le_max_left ..), (hdone v hv).2⟩
    · rw [List.mem_singleton.1 hv]
      exact ⟨le_max_right .., hfit⟩

/-- The holder takes a message: the stored one, if it has the same hash, is no longer. -/
def TakesMessage (key : Pubkey) (hash : U256) (t : Bytes) (L : Ledger) : Prop :=
  ∀ {d rest}, L.held Holder key = some (d, rest) → d.transactionHash = hash →
    d.transactionLen ≤ t.length

omit [Platform] in
theorem TakesMessage.received {t : Bytes} (h : TakesMessage key hash t L) :
    Received key hash t [] L := by
  intro d rest hprepared
  refine ⟨?_, fun i ⟨_, hmem, _⟩ => (List.not_mem_nil hmem).elim,
    fun _ hmem => (List.not_mem_nil hmem).elim⟩
  rw [Ledger.prepared] at hprepared
  rcases hheld : L.held Holder key with _ | ⟨d₀, rest₀⟩
  · rw [hheld] at hprepared
    obtain ⟨f, -, hf⟩ := Option.map_eq_some_iff.1 hprepared
    rw [← (Prod.mk.inj hf).1]
    exact Nat.zero_le _
  · rw [hheld] at hprepared
    have hd := Option.some.inj hprepared
    by_cases hhash : d₀.transactionHash = hash
    · rw [rehash_of_eq hhash] at hd
      rw [← (Prod.mk.inj hd).1]
      exact h hheld hhash
    · rw [Holder.rehash, if_pos hhash] at hd
      rw [← (Prod.mk.inj hd).1]
      exact Nat.zero_le _

/-- Instructions, one after the other. -/
def writeAll (ws : List HolderWrite) : Program Unit := foldl (fun _ w => w.run) () ws

/-- **Any order of the pieces.** -/
theorem received_of_writeAll {t : Bytes} {ws : List HolderWrite}
    (hready : TakesMessage key hash t L) (hws : ∀ w ∈ ws, w.Carries key hash t)
    (hrun : writeAll ws L = .ok u L') :
    Received key hash t ws L' ∧
      (ws ≠ [] → ∃ d rest, L'.held Holder key = some (d, rest) ∧ d.transactionHash = hash) := by
  refine foldl_invariant (I := fun done _ L₁ => Received key hash t done L₁ ∧
    (done ≠ [] → ∃ d rest, L₁.held Holder key = some (d, rest) ∧ d.transactionHash = hash))
    ?_ ⟨hready.received, fun h => (h rfl).elim⟩ hrun
  intro done w rest _ L₁ _ L₂ hsplit hreceived hw
  have hmem : w ∈ ws := by
    rw [hsplit]
    exact List.mem_append_right done List.mem_cons_self
  have hstep := Received.step (t := t) hreceived.1 (hws w hmem) hw
  exact ⟨hstep.1, fun _ => hstep.2⟩

omit [Platform] in
/-- **The message is read back** once every place of it was written. -/
theorem Received.transaction {t : Bytes} {ws : List HolderWrite} (h : Received key hash t ws L)
    {d : Holder} {rest : Bytes}
    (hheld : L.held Holder key = some (d, rest)) (hhash : d.transactionHash = hash)
    (hall : ∀ i < t.length, ∃ w ∈ ws, Within w.offset w.chunk i) :
    d.transaction rest = some t := by
  obtain ⟨hle, hagrees, hdone⟩ := h (prepared_of_holder hheld hhash)
  have hreach : t.length ≤ d.transactionLen ∧ t.length ≤ rest.length := by
    rcases Nat.eq_zero_or_pos t.length with hzero | hpos
    · rw [hzero]
      exact ⟨Nat.zero_le _, Nat.zero_le _⟩
    · obtain ⟨w, hw, hwithin⟩ := hall (t.length - 1) (by omega)
      have hreach := hdone w hw
      have hlast := hwithin.2
      exact ⟨by omega, by omega⟩
  have hlen : d.transactionLen = t.length := Nat.le_antisymm hle hreach.1
  rw [Holder.transaction, hlen, if_pos hreach.2]
  exact congrArg some (hagrees.take hall)

/-- The writes are to the one holder, by those who may, and each fits. -/
def AllFit (key : Pubkey) (ws : List HolderWrite) (L : Ledger) : Prop :=
  ∀ w ∈ ws, ∃ info operator, info.pubkey = key ∧ w.Authorised L info operator ∧
    w.offset + w.chunk.length ≤ (L key).content.len - SIZE Holder

/-- **Writes that fit succeed**, all of them. -/
theorem writeAll_of_allFit {ws : List HolderWrite} (h : AllFit key ws L) :
    ∃ L', writeAll ws L = .ok () L' := by
  induction ws generalizing L with
  | nil => exact ⟨L, rfl⟩
  | cons w ws ih =>
    obtain ⟨info, operator, rfl, hauthorised, hfit⟩ := h w List.mem_cons_self
    obtain ⟨L₁, hw⟩ := HolderWrite.run_of_fits hauthorised hfit
    have hrest : AllFit info.pubkey ws L₁ := by
      intro v hv
      obtain ⟨info', operator', hkey, hv', hfit'⟩ := h v (List.mem_cons_of_mem w hv)
      obtain ⟨hafter, hlen⟩ := hv'.after hauthorised.first hkey.symm hw
      rw [hkey] at hlen
      exact ⟨info', operator', hkey, hafter, hlen ▸ hfit'⟩
    obtain ⟨L', hws⟩ := ih hrest
    exact ⟨L', bind_eq_ok.2 ⟨(), L₁, hw, hws⟩⟩

/-- A write that does not fit does not succeed. -/
theorem HolderWrite.run_ne_ok_of_long {info : AccountMeta} (hinfo : w.accounts[0]? = some info)
    (hlong : (L info.pubkey).content.len - SIZE Holder < w.offset + w.chunk.length) :
    w.run L ≠ .ok u L' := by
  intro h
  obtain ⟨info', d, rest, hinfo', -, hprepared, -, hfit, -⟩ := HolderWrite.run_ok h
  obtain rfl : info = info' := Option.some.inj (hinfo.symm.trans hinfo')
  rw [length_prepared hprepared] at hfit
  exact Nat.not_lt.2 hfit hlong

/-- A write to an account with another tag does not succeed. -/
theorem HolderWrite.run_ne_ok_of_tag {info : AccountMeta} (hinfo : w.accounts[0]? = some info)
    (htag : (L info.pubkey).content.tag = some (TAG State)) : w.run L ≠ .ok u L' := by
  intro h
  obtain ⟨info', d, rest, hinfo', -, hprepared, -⟩ := HolderWrite.run_ok h
  obtain rfl : info = info' := Option.some.inj (hinfo.symm.trans hinfo')
  rw [Ledger.prepared] at hprepared
  rcases hheld : L.held Holder info.pubkey with _ | ⟨d₀, rest₀⟩
  · rw [hheld] at hprepared
    obtain ⟨⟨f, frest⟩, hf, -⟩ := Option.map_eq_some_iff.1 hprepared
    rw [(held_finalized.1 hf).2] at htag
    have htags : (TAG FinalizedState : UInt8) ≠ TAG State := by decide
    exact htags (Option.some.inj htag)
  · rw [(held_holder.1 hheld).2] at htag
    have htags : (TAG Holder : UInt8) ≠ TAG State := by decide
    exact htags (Option.some.inj htag)

omit [Platform] [Runtime] in
theorem settle_of_ne_ok {α : Type} {x : Program α} (h : ∀ {a L'}, x L ≠ .ok a L') :
    settle x L = L := by
  unfold settle
  split
  · rename_i hx
    exact (h hx).elim
  · rfl

/-- **A holder reassembles the message** — from pieces in any order, overlapping and repeated, if
what is stored under the same hash was no longer; a write that does not fit, or to the state of a
transaction that is under way, leaves the accounts as they were. -/
theorem holder_reassembles (key : Pubkey) (hash : U256) :
    (∀ t ws L L', ws ≠ [] → TakesMessage key hash t L → (∀ w ∈ ws, w.Carries key hash t) →
      (∀ i < t.length, ∃ w ∈ ws, Within w.offset w.chunk i) → writeAll ws L = .ok () L' →
        ∃ d rest, L'.held Holder key = some (d, rest) ∧ d.transaction rest = some t) ∧
    (∀ ws L, AllFit key ws L → ∃ L', writeAll ws L = .ok () L') ∧
    (∀ (w : HolderWrite) L info, w.accounts[0]? = some info →
      (L info.pubkey).content.len - SIZE Holder < w.offset + w.chunk.length →
        (∀ u L', w.run L ≠ .ok u L') ∧ settle w.run L = L) ∧
    (∀ (w : HolderWrite) L info, w.accounts[0]? = some info →
      (L info.pubkey).content.tag = some (TAG State) →
        (∀ u L', w.run L ≠ .ok u L') ∧ settle w.run L = L) := by
  refine ⟨?_, fun ws L => writeAll_of_allFit, ?_, ?_⟩
  · intro t ws L L' hne hready hcarries hall hrun
    obtain ⟨hreceived, hheld⟩ := received_of_writeAll hready hcarries hrun
    obtain ⟨d, rest, hheld, hhash⟩ := hheld hne
    exact ⟨d, rest, hheld, hreceived.transaction hheld hhash hall⟩
  · intro w L info hinfo hlong
    exact ⟨fun _ _ => HolderWrite.run_ne_ok_of_long hinfo hlong,
      settle_of_ne_ok (HolderWrite.run_ne_ok_of_long hinfo hlong)⟩
  · intro w L info hinfo htag
    exact ⟨fun _ _ => HolderWrite.run_ne_ok_of_tag hinfo htag,
      settle_of_ne_ok (HolderWrite.run_ne_ok_of_tag hinfo htag)⟩

/-! ## A message of three bytes -/

omit [Platform] [Runtime]

/-- A write to the first account. -/
def writeTo (offset : UInt8) (chunk : Bytes) : HolderWrite :=
  ⟨[firstAccount, sender], List.replicate 32 7 ++ offset :: List.replicate 7 0 ++ chunk⟩

/-- The first account is a holder, of the one who sends. -/
def holderLedger (hash : U256) (stored : Bytes) : Ledger :=
  foreignLedger.set firstAccount.pubkey
    ⟨10 ^ 9, 9, .holder ⟨5, hash, stored.length⟩ (stored ++ List.replicate 4 0), false, 0⟩

theorem writeTo_carries {t : Bytes} {offset : UInt8} {chunk : Bytes}
    (h : IsPiece t (writeTo offset chunk).offset (writeTo offset chunk).chunk) :
    (writeTo offset chunk).Carries 17 (U256.ofBytes (List.replicate 32 7)) t := by
  refine ⟨fun {info} hinfo => ?_, ?_, h⟩
  · obtain rfl := Option.some.inj hinfo
    rfl
  · rfl

/-- Two pieces, the second of them first. -/
theorem holder_reassembles_three :
    let _ := Platform.bare
    let _ := Runtime.bare
    ∃ L' d rest,
      writeAll [writeTo 1 [8, 9], writeTo 0 [7, 8]] (holderLedger 0 [1, 2, 3, 4]) = .ok () L' ∧
      L'.held Holder 17 = some (d, rest) ∧ d.transaction rest = some [7, 8, 9] := by
  let _ := Platform.bare
  let _ := Runtime.bare
  have hok : (writeAll [writeTo 1 [8, 9], writeTo 0 [7, 8]]
      (holderLedger 0 [1, 2, 3, 4])).okAnd fun _ _ => true := by
    decide +kernel
  obtain ⟨_, L', hrun, -⟩ := Outcome.exists_of_okAnd hok
  have hready : TakesMessage 17 (U256.ofBytes (List.replicate 32 7)) [7, 8, 9]
      (holderLedger 0 [1, 2, 3, 4]) := by
    intro d rest hheld hhash
    obtain rfl : (⟨5, 0, 4⟩ : Holder) = d := congrArg Prod.fst (Option.some.inj hheld)
    exact absurd hhash (by decide)
  have hcarries : ∀ w ∈ [writeTo 1 [8, 9], writeTo 0 [7, 8]],
      w.Carries 17 (U256.ofBytes (List.replicate 32 7)) [7, 8, 9] := by
    intro w hw
    rcases List.mem_cons.1 hw with rfl | hw
    · exact writeTo_carries ⟨by decide, by decide⟩
    · obtain rfl := List.mem_singleton.1 hw
      exact writeTo_carries ⟨by decide, by decide⟩
  have hall : ∀ i < [7, 8, 9].length, ∃ w ∈ [writeTo 1 [8, 9], writeTo 0 [7, 8]],
      Within w.offset w.chunk i := by
    intro i hi
    rcases Nat.lt_or_ge i 1 with hzero | hpos
    · exact ⟨writeTo 0 [7, 8], by simp, Nat.zero_le i, hzero.trans (by decide)⟩
    · exact ⟨writeTo 1 [8, 9], by simp, hpos, hi⟩
  obtain ⟨d, rest, hheld, htransaction⟩ :=
    (holder_reassembles 17 (U256.ofBytes (List.replicate 32 7))).1 [7, 8, 9] _ _ L'
      (List.cons_ne_nil _ _) hready hcarries hall hrun
  exact ⟨L', d, rest, hrun, hheld, htransaction⟩

/-- **What is longer stays** — a message of one byte, under the hash of a stored one of two. -/
theorem holder_keeps_longer :
    let _ := Platform.bare
    let _ := Runtime.bare
    ∃ L' d rest, (writeTo 0 [5]).Carries 17 (U256.ofBytes (List.replicate 32 7)) [5] ∧
      (∀ i < [5].length, Within (writeTo 0 [5]).offset (writeTo 0 [5]).chunk i) ∧
      writeAll [writeTo 0 [5]] (holderLedger (U256.ofBytes (List.replicate 32 7)) [1, 2]) =
        .ok () L' ∧
      L'.held Holder 17 = some (d, rest) ∧ d.transaction rest = some [5, 2] := by
  let _ := Platform.bare
  let _ := Runtime.bare
  have hok : (writeAll [writeTo 0 [5]]
      (holderLedger (U256.ofBytes (List.replicate 32 7)) [1, 2])).okAnd fun _ L' =>
        (L'.held Holder 17).any fun e => e.1.transaction e.2 = some [5, 2] := by
    decide +kernel
  obtain ⟨_, L', hrun, hread⟩ := Outcome.exists_of_okAnd hok
  obtain ⟨⟨d, rest⟩, hheld, htransaction⟩ := (Option.any_eq_true _ _).1 hread
  exact ⟨L', d, rest, writeTo_carries ⟨by decide, by decide⟩, fun i hi => ⟨Nat.zero_le i, hi⟩,
    hrun, hheld, of_decide_eq_true htransaction⟩

end NeonEvm
