import NeonEvm.Evm.PastTheEnd

/-!
# Evm/PrecompileInputs — what the native contracts make of any input

    ecrecover · add · mul     128 bytes, padded with zeros
    bigmodexp                 3 × 32 bytes of lengths, then what they declare
    pairing                   whole pairs of 192 bytes
    blake2f                   213 bytes

The fields of `bigmodexp` are split off the input as it is, and the results of the curve are
unwrapped.
-/

namespace NeonEvm

open Exec Cells

namespace Precompile

/-! ## Layouts -/

/-- Length number `k` that an input of `bigmodexp` declares: base, exponent, modulus. -/
def declaredLen (data : Bytes) (k : ℕ) : ℕ :=
  (U256.ofBytes (window (cells 0 data) (32 * k) 32)).toNat

/-- The declared lengths are machine words. -/
def LensFit (data : Bytes) : Prop := ∀ k < 3, declaredLen data k < USIZE

/-- The bytes of the declared layout of `bigmodexp`. -/
def modExpLen (data : Bytes) : ℕ :=
  96 + declaredLen data 0 + declaredLen data 1 + declaredLen data 2

/-- The layout of a fixed length that a contract has. -/
def layoutLen (address : Address) : ℕ :=
  if address = SYSTEM_ACCOUNT_ECRECOVER then 128
  else if address = SYSTEM_ACCOUNT_BN256_ADD then ALT_BN128_ADDITION_INPUT_LEN
  else if address = SYSTEM_ACCOUNT_BN256_SCALAR_MUL then ALT_BN128_MULTIPLICATION_INPUT_LEN
  else 0

section

variable [Platform]

/-- The modular power of the declared fields, zeros behind the end of the input. -/
def paddedPower (data : Bytes) : Bytes :=
  let base := declaredLen data 0
  let exponent := declaredLen data 1
  Platform.bigModExp (window (cells 0 data) 96 base) (window (cells 0 data) (96 + base) exponent)
    (window (cells 0 data) (96 + base + exponent) (declaredLen data 2))

/-- **No signer can be recovered** from an input of `ecrecover`, zeros behind its end: `v` is no recovery
id, or the curve refuses the signature. -/
def Unrecoverable (data : Bytes) : Prop :=
  let input := padRight data 128
  let v := ofBeBytes ((input.drop 32).take 32)
  v < 27 ∨ 30 < v ∨ Platform.secp256k1Recover (input.take 32) (v - 27) (input.drop 64) = none

/-- An input that a contract has no result for. -/
def Malformed (address : Address) (data : Bytes) : Prop :=
  address = SYSTEM_ACCOUNT_ECRECOVER ∧ Unrecoverable data ∨
  address = SYSTEM_ACCOUNT_BN256_ADD ∧
    Platform.altBn128Addition (padRight data ALT_BN128_ADDITION_INPUT_LEN) = none ∨
  address = SYSTEM_ACCOUNT_BN256_SCALAR_MUL ∧
    Platform.altBn128Multiplication (padRight data ALT_BN128_MULTIPLICATION_INPUT_LEN) = none ∨
  address = SYSTEM_ACCOUNT_BN256_PAIRING ∧ data ≠ [] ∧
    (data.length % ALT_BN128_PAIRING_ELEMENT_LEN ≠ 0 ∨ Platform.altBn128Pairing data = none) ∨
  address = SYSTEM_ACCOUNT_BLAKE2F ∧
    (data.length ≠ Blake2.BLAKE2_F_ARG_LEN ∨ data.getD 212 0 ≠ 0 ∧ data.getD 212 0 ≠ 1)

/-- **A native contract accepts an input**: it returns; an input that is shorter than its layout is
read as if zeros followed; a malformed one has no result, or the result zero. -/
structure Accepts (address : Address) (data : Bytes) : Prop where
  returns : ∃ x out, precompile address data = some x ∧ x () = .ok out ()
  padded : data.length < layoutLen address → ∀ x, precompile address data = some x →
    ∃ y, precompile address (padRight data (layoutLen address)) = some y ∧ y () = x ()
  modExp : address = SYSTEM_ACCOUNT_BIGMODEXP → data.length < modExpLen data →
    ∀ out, bigModExp data () = .ok out () → out = paddedPower data
  malformed : Malformed address data → ∀ x out, precompile address data = some x →
    x () = .ok out () → out = [] ∨ out = toBeBytes 32 0

/-- **Where an input is accepted**: the fields of `bigmodexp` are there, or the header is cut off or
declares a length that is no machine word, and the modulus has no bytes; the points of a curve
operation are valid. -/
def Served (address : Address) (data : Bytes) : Prop :=
  (address = SYSTEM_ACCOUNT_BIGMODEXP → modExpLen data ≤ data.length ∨
    (data.length < 96 ∨ ¬LensFit data) ∧ declaredLen data 2 = 0) ∧
  (address = SYSTEM_ACCOUNT_BN256_ADD →
    Platform.altBn128Addition (padRight data ALT_BN128_ADDITION_INPUT_LEN) ≠ none) ∧
  (address = SYSTEM_ACCOUNT_BN256_SCALAR_MUL →
    Platform.altBn128Multiplication (padRight data ALT_BN128_MULTIPLICATION_INPUT_LEN) ≠ none) ∧
  (address = SYSTEM_ACCOUNT_BN256_PAIRING → data ≠ [] →
    data.length % ALT_BN128_PAIRING_ELEMENT_LEN = 0 → Platform.altBn128Pairing data ≠ none)

/-- `big_mod_exp` of the library computes the modular power, in as many bytes as the modulus has. -/
def ModularPower : Prop := ∀ base exponent modulus : Bytes,
  Platform.bigModExp base exponent modulus = toBeBytes modulus.length
    (if ofBeBytes modulus = 0 then 0
      else ofBeBytes base ^ ofBeBytes exponent % ofBeBytes modulus)

end

/-! ## bigmodexp -/

theorem splitAt_run (bytes : Bytes) (mid : ℕ) : splitAt bytes mid () =
    if mid ≤ bytes.length then .ok (bytes.take mid, bytes.drop mid) () else .panic .index := by
  unfold splitAt
  split_ifs
  · rw [pure_run, List.splitAt_eq]
  · rfl

section

variable {data : Bytes}

/-- A field of the header is where the source looks for it. -/
theorem toUsize_field (h : 96 ≤ data.length) {k : ℕ} (hk : k < 3) :
    (U256.ofBytes ((data.drop (32 * k)).take 32)).toUsize? =
      if declaredLen data k < USIZE then some (declaredLen data k) else none := by
  rw [take_drop_eq_window (d := 0) (by omega)]
  rfl

variable [Platform]

/-- A header that is cut off gives nothing. -/
theorem bigModExp_short (h : data.length < 96) : bigModExp data () = .ok [] () := by
  rw [bigModExp, if_pos h]
  rfl

theorem bigModExp_eq (h : 96 ≤ data.length) : bigModExp data =
    match (if declaredLen data 0 < USIZE then some (declaredLen data 0) else none),
      (if declaredLen data 1 < USIZE then some (declaredLen data 1) else none),
      (if declaredLen data 2 < USIZE then some (declaredLen data 2) else none) with
    | some baseLen, some expLen, some modLen =>
      if baseLen = 0 ∧ modLen = 0 then pure (List.replicate 32 0)
      else do
        let (baseVal, rest) ← splitAt (data.drop 96) baseLen
        let (expVal, rest) ← splitAt rest expLen
        let (modVal, _) ← splitAt rest modLen
        pure (Platform.bigModExp baseVal expVal modVal)
    | _, _, _ => pure [] := by
  rw [bigModExp, if_neg (not_lt.2 h), ← toUsize_field h (by decide : 0 < 3),
    ← toUsize_field h (by decide : 1 < 3), ← toUsize_field h (by decide : 2 < 3)]
  rfl

/-- Lengths that do not fit give nothing. -/
theorem bigModExp_of_not_fit (hfit : ¬LensFit data) : bigModExp data () = .ok [] () := by
  rcases lt_or_ge data.length 96 with h | h
  · exact bigModExp_short h
  · rw [bigModExp_eq h]
    split
    · next h₀ h₁ h₂ =>
      refine absurd (fun k hk => ?_) hfit
      by_contra hlen
      interval_cases k
      · rw [if_neg hlen] at h₀
        cases h₀
      · rw [if_neg hlen] at h₁
        cases h₁
      · rw [if_neg hlen] at h₂
        cases h₂
    · rfl

/-- Neither base nor modulus: a word of zeros. -/
theorem bigModExp_of_zero (h : 96 ≤ data.length) (hfit : LensFit data)
    (hzero : declaredLen data 0 = 0 ∧ declaredLen data 2 = 0) :
    bigModExp data () = .ok (List.replicate 32 0) () := by
  rw [bigModExp_eq h, if_pos (hfit 0 (by decide)), if_pos (hfit 1 (by decide)),
    if_pos (hfit 2 (by decide))]
  dsimp only
  rw [if_pos hzero]
  rfl

/-- **The fields are split off**, if they are there. -/
theorem bigModExp_of_fit (h : 96 ≤ data.length) (hfit : LensFit data)
    (hzero : ¬(declaredLen data 0 = 0 ∧ declaredLen data 2 = 0)) :
    bigModExp data () = if modExpLen data ≤ data.length then .ok (paddedPower data) ()
      else .panic .index := by
  rw [bigModExp_eq h, if_pos (hfit 0 (by decide)), if_pos (hfit 1 (by decide)),
    if_pos (hfit 2 (by decide))]
  dsimp only
  rw [if_neg hzero, modExpLen, bind_run, splitAt_run]
  by_cases hbase : declaredLen data 0 ≤ (data.drop 96).length
  · rw [if_pos hbase, Outcome.ok_andThen]
    dsimp only
    rw [List.drop_drop, bind_run, splitAt_run]
    by_cases hexp : declaredLen data 1 ≤ (data.drop (96 + declaredLen data 0)).length
    · rw [if_pos hexp, Outcome.ok_andThen]
      dsimp only
      rw [List.drop_drop, bind_run, splitAt_run]
      by_cases hmod : declaredLen data 2 ≤
          (data.drop (96 + declaredLen data 0 + declaredLen data 1)).length
      · rw [List.length_drop] at hbase hexp hmod
        rw [if_pos (by rw [List.length_drop]; exact hmod), Outcome.ok_andThen, if_pos (by omega),
          paddedPower, take_drop_eq_window (d := 0) (by omega),
          take_drop_eq_window (d := 0) (by omega), take_drop_eq_window (d := 0) (by omega)]
        rfl
      · rw [if_neg hmod, if_neg (by rw [List.length_drop] at hmod; omega)]
        rfl
    · rw [if_neg hexp, if_neg (by rw [List.length_drop] at hexp; omega)]
      rfl
  · rw [if_neg hbase, if_neg (by rw [List.length_drop] at hbase; omega)]
    rfl

theorem ModularPower.length (h : ModularPower) (base exponent modulus : Bytes) :
    (Platform.bigModExp base exponent modulus).length = modulus.length := by
  rw [h, length_toBeBytes]

/-- The header is cut off, or declares a length that is no machine word: there is no result. -/
theorem bigModExp_of_unread (h : data.length < 96 ∨ ¬LensFit data) :
    bigModExp data () = .ok [] () := h.elim bigModExp_short bigModExp_of_not_fit

/-- **`bigmodexp` accepts an input** if it has what it declares, or declares no modulus where it cannot
read the header. -/
theorem bigModExp_accepts_iff (hpow : ModularPower) :
    ((∃ out, bigModExp data () = .ok out ()) ∧ (data.length < modExpLen data →
      ∀ out, bigModExp data () = .ok out () → out = paddedPower data)) ↔
    modExpLen data ≤ data.length ∨
      (data.length < 96 ∨ ¬LensFit data) ∧ declaredLen data 2 = 0 := by
  have hlen : (paddedPower data).length = declaredLen data 2 := by
    rw [paddedPower, hpow.length, length_window]
  by_cases hunread : data.length < 96 ∨ ¬LensFit data
  · have hrun := bigModExp_of_unread hunread
    constructor
    · rintro ⟨-, hpadded⟩
      rcases Nat.lt_or_ge data.length (modExpLen data) with hshort | hfull
      · refine .inr ⟨hunread, ?_⟩
        rw [← hlen, ← hpadded hshort [] hrun]
        rfl
      · exact .inl hfull
    · rintro (hfull | ⟨-, hmod⟩)
      · exact ⟨⟨_, hrun⟩, fun hshort => absurd hshort (not_lt.2 hfull)⟩
      · refine ⟨⟨_, hrun⟩, fun _ out hout => ?_⟩
        rw [hrun] at hout
        obtain rfl : [] = out := by injection hout
        rw [hmod] at hlen
        exact (List.length_eq_zero_iff.1 hlen).symm
  · obtain ⟨h, hfit⟩ := not_or.1 hunread
    have h := not_lt.1 h
    have hfit := not_not.1 hfit
    by_cases hzero : declaredLen data 0 = 0 ∧ declaredLen data 2 = 0
    · have hrun := bigModExp_of_zero h hfit hzero
      constructor
      · rintro ⟨-, hpadded⟩
        refine .inl (not_lt.1 fun hshort => ?_)
        rw [← hpadded hshort _ hrun, hzero.2] at hlen
        cases hlen
      · rintro (hfull | ⟨hno, -⟩)
        · exact ⟨⟨_, hrun⟩, fun hshort => absurd hshort (not_lt.2 hfull)⟩
        · exact absurd hno hunread
    · have hrun := bigModExp_of_fit h hfit hzero
      constructor
      · rintro ⟨⟨out, hout⟩, -⟩
        rw [hrun] at hout
        split_ifs at hout with hfull
        exact .inl hfull
      · rintro (hfull | ⟨hno, -⟩)
        · rw [if_pos hfull] at hrun
          exact ⟨⟨_, hrun⟩, fun hshort => absurd hshort (not_lt.2 hfull)⟩
        · exact absurd hno hunread

/-! ## All nine -/

omit [Platform] in
theorem padRight_padRight (len : ℕ) : padRight (padRight data len) len = padRight data len := by
  have hlen : (padRight data len).length = len := by
    rw [padRight, List.length_take, List.length_append, List.length_replicate]
    omega
  rw [padRight, hlen, Nat.sub_self, List.replicate_zero, List.append_nil,
    List.take_of_length_le hlen.le]

variable {address : Address} {x : Fallible Bytes} {out : Bytes}

/-- **A contract other than `bigmodexp`** accepts an input that it returns for, if it pads it, and if
the result of a malformed one is no result. -/
theorem accepts_of_returns (hx : precompile address data = some x) (hout : x () = .ok out ())
    (hpad : ∀ len, layoutLen address = len → len ≠ 0 →
      ∃ y, precompile address (padRight data len) = some y ∧ y () = x ())
    (hmod : address ≠ SYSTEM_ACCOUNT_BIGMODEXP)
    (hmal : Malformed address data → out = [] ∨ out = toBeBytes 32 0) : Accepts address data where
  returns := ⟨x, out, hx, hout⟩
  padded := fun hlen y hy => by
    obtain rfl := Option.some.inj (hx.symm.trans hy)
    exact hpad _ rfl (Nat.ne_of_gt (Nat.zero_lt_of_lt hlen))
  modExp := fun h => absurd h hmod
  malformed := fun h y out' hy hout' => by
    obtain rfl := Option.some.inj (hx.symm.trans hy)
    rw [hout] at hout'
    obtain rfl : out = out' := by injection hout'
    exact hmal h

/-- Where an address has no condition, its contract serves every input. -/
theorem served_of_ne (h₀ : address ≠ SYSTEM_ACCOUNT_BIGMODEXP) (h₁ : address ≠ SYSTEM_ACCOUNT_BN256_ADD)
    (h₂ : address ≠ SYSTEM_ACCOUNT_BN256_SCALAR_MUL) (h₃ : address ≠ SYSTEM_ACCOUNT_BN256_PAIRING) :
    Served address data :=
  ⟨fun h => absurd h h₀, fun h => absurd h h₁, fun h => absurd h h₂, fun h => absurd h h₃⟩

theorem not_malformed_of_ne (h₀ : address ≠ SYSTEM_ACCOUNT_ECRECOVER)
    (h₁ : address ≠ SYSTEM_ACCOUNT_BN256_ADD) (h₂ : address ≠ SYSTEM_ACCOUNT_BN256_SCALAR_MUL)
    (h₃ : address ≠ SYSTEM_ACCOUNT_BN256_PAIRING) (h₄ : address ≠ SYSTEM_ACCOUNT_BLAKE2F) :
    ¬Malformed address data := by
  rintro (⟨h, -⟩ | ⟨h, -⟩ | ⟨h, -⟩ | ⟨h, -⟩ | ⟨h, -⟩)
  exacts [h₀ h, h₁ h, h₂ h, h₃ h, h₄ h]

/-- `ecrecover` pads its input, and recovers nobody from a malformed one. -/
theorem accepts_ecrecover : Accepts SYSTEM_ACCOUNT_ECRECOVER data := by
  refine accepts_of_returns (x := pure (ecrecover data)) rfl rfl ?_ (by decide) fun h => .inl ?_
  · rintro len rfl -
    refine ⟨pure (ecrecover (padRight data 128)), rfl, ?_⟩
    rw [pure_run, pure_run, ecrecover, ecrecover, padRight_padRight]
  · rcases h with ⟨-, h⟩ | ⟨h, -⟩ | ⟨h, -⟩ | ⟨h, -⟩ | ⟨h, -⟩
    on_goal 1 =>
      rw [ecrecover]
      dsimp only [Unrecoverable] at h ⊢
      split_ifs with hv
      · rfl
      · obtain ⟨hlow, hhigh⟩ := not_or.1 hv
        rw [(h.resolve_left hlow).resolve_left hhigh]
    all_goals exact absurd h (by decide)

/-- A contract without a layout, and without malformed inputs. -/
theorem accepts_total (hx : precompile address data = some x) (hout : x () = .ok out ())
    (hlayout : layoutLen address = 0) (hmod : address ≠ SYSTEM_ACCOUNT_BIGMODEXP)
    (hmal : ¬Malformed address data) : Accepts address data :=
  accepts_of_returns hx hout (fun _ h hne => absurd (h.symm.trans hlayout) hne) hmod
    fun h => absurd h hmal

/-- **An operation of the curve** pads its input, and returns where the points are valid. -/
theorem accepts_curve_iff {curve : Bytes → Option Bytes} {len : ℕ}
    (hx : ∀ data, precompile address data = some (ofOption .unwrap (curve (padRight data len))))
    (hlayout : layoutLen address = len) (hmod : address ≠ SYSTEM_ACCOUNT_BIGMODEXP)
    (hmal : Malformed address data → curve (padRight data len) = none) :
    Accepts address data ↔ curve (padRight data len) ≠ none := by
  cases hcurve : curve (padRight data len) with
  | none =>
    refine iff_of_false ?_ fun h => h rfl
    rintro ⟨⟨x, out, hx', hout⟩, -, -, -⟩
    rw [hx, hcurve] at hx'
    obtain rfl := Option.some.inj hx'
    cases hout
  | some out =>
    refine iff_of_true (accepts_of_returns (hx data) (by rw [hcurve]; rfl) ?_ hmod fun h => ?_)
      (Option.some_ne_none _)
    · rintro _ rfl -
      refine ⟨_, hx _, ?_⟩
      rw [hlayout, padRight_padRight]
    · rw [hmal h] at hcurve
      cases hcurve

theorem accepts_bigModExp_iff (hpow : ModularPower) :
    Accepts SYSTEM_ACCOUNT_BIGMODEXP data ↔ Served SYSTEM_ACCOUNT_BIGMODEXP data := by
  have hserved : Served SYSTEM_ACCOUNT_BIGMODEXP data ↔ modExpLen data ≤ data.length ∨
      (data.length < 96 ∨ ¬LensFit data) ∧ declaredLen data 2 = 0 :=
    ⟨fun h => h.1 rfl, fun h => ⟨fun _ => h, fun h => absurd h (by decide),
      fun h => absurd h (by decide), fun h => absurd h (by decide)⟩⟩
  rw [hserved, ← bigModExp_accepts_iff hpow]
  constructor
  · rintro ⟨⟨x, out, hx, hout⟩, -, hmod, -⟩
    obtain rfl : bigModExp data = x := Option.some.inj hx
    exact ⟨⟨out, hout⟩, hmod rfl⟩
  · rintro ⟨⟨out, hout⟩, hmod⟩
    refine ⟨⟨_, out, rfl, hout⟩, fun h => absurd h (Nat.not_lt_zero _), fun _ => hmod, fun h => ?_⟩
    exact absurd h
      (not_malformed_of_ne (by decide) (by decide) (by decide) (by decide) (by decide))

theorem accepts_pairing_iff :
    Accepts SYSTEM_ACCOUNT_BN256_PAIRING data ↔ Served SYSTEM_ACCOUNT_BN256_PAIRING data := by
  have hserved : Served SYSTEM_ACCOUNT_BN256_PAIRING data ↔ (data ≠ [] →
      data.length % ALT_BN128_PAIRING_ELEMENT_LEN = 0 → Platform.altBn128Pairing data ≠ none) :=
    ⟨fun h => h.2.2.2 rfl, fun h => ⟨fun h => absurd h (by decide), fun h => absurd h (by decide),
      fun h => absurd h (by decide), fun _ => h⟩⟩
  have hmal (h : Malformed SYSTEM_ACCOUNT_BN256_PAIRING data) : data ≠ [] ∧
      (data.length % ALT_BN128_PAIRING_ELEMENT_LEN ≠ 0 ∨ Platform.altBn128Pairing data = none) := by
    rcases h with ⟨h, -⟩ | ⟨h, -⟩ | ⟨h, -⟩ | ⟨-, h⟩ | ⟨h, -⟩
    on_goal 4 => exact h
    all_goals exact absurd h (by decide)
  have hx : precompile SYSTEM_ACCOUNT_BN256_PAIRING data = some (bn256Pairing data) := rfl
  have haccepts (out : Bytes) (hout : bn256Pairing data () = .ok out ())
      (h : Malformed SYSTEM_ACCOUNT_BN256_PAIRING data → out = [] ∨ out = toBeBytes 32 0) :
      Accepts SYSTEM_ACCOUNT_BN256_PAIRING data :=
    accepts_of_returns hx hout (fun _ h hne => absurd h.symm hne) (by decide) h
  rw [hserved]
  by_cases hnil : data = []
  · refine iff_of_true (haccepts (toBeBytes 32 1) ?_ fun h => absurd hnil (hmal h).1)
      fun h => absurd hnil h
    rw [bn256Pairing, if_pos hnil]
    rfl
  · by_cases hlen : data.length % ALT_BN128_PAIRING_ELEMENT_LEN = 0
    · have hrun : bn256Pairing data = ofOption .unwrap (Platform.altBn128Pairing data) := by
        rw [bn256Pairing, if_neg hnil, if_neg (not_not.2 hlen)]
      cases hcurve : Platform.altBn128Pairing data with
      | none =>
        refine iff_of_false ?_ fun h => h hnil hlen rfl
        rintro ⟨⟨x, out, hx', hout⟩, -, -, -⟩
        obtain rfl := Option.some.inj (hx.symm.trans hx')
        rw [hrun, hcurve] at hout
        cases hout
      | some out =>
        refine iff_of_true (haccepts out (by rw [hrun, hcurve]; rfl) fun h => ?_)
          fun _ _ => Option.some_ne_none _
        rcases (hmal h).2 with h | h
        · exact absurd hlen h
        · rw [hcurve] at h
          cases h
    · refine iff_of_true (haccepts (toBeBytes 32 0) ?_ fun _ => .inr rfl)
        fun _ h => absurd h hlen
      rw [bn256Pairing, if_neg hnil, if_pos hlen]
      rfl

theorem accepts_blake2F : Accepts SYSTEM_ACCOUNT_BLAKE2F data := by
  refine accepts_of_returns (x := pure (blake2F data)) rfl rfl (fun _ h hne => absurd h.symm hne)
    (by decide) fun h => .inl ?_
  rcases h with ⟨h, -⟩ | ⟨h, -⟩ | ⟨h, -⟩ | ⟨h, -⟩ | ⟨-, h⟩
  on_goal 5 =>
    rw [blake2F]
    split_ifs with hlen
    · rfl
    · exact if_pos (h.resolve_left hlen)
  all_goals exact absurd h (by decide)

/-- **A native contract accepts an input if and only if it serves it.** -/
theorem native_contracts_accept_what_they_serve (hpow : ModularPower)
    (h : isPrecompileAddress address = true) : Accepts address data ↔ Served address data := by
  simp only [isPrecompileAddress, Bool.or_eq_true, decide_eq_true_eq] at h
  rcases h with (((((((h | h) | h) | h) | h) | h) | h) | h) | h
  all_goals subst h
  · exact iff_of_true accepts_ecrecover
      (served_of_ne (by decide) (by decide) (by decide) (by decide))
  · exact iff_of_true (accepts_total (x := pure (sha256 data)) rfl rfl rfl (by decide)
      (not_malformed_of_ne (by decide) (by decide) (by decide) (by decide) (by decide)))
      (served_of_ne (by decide) (by decide) (by decide) (by decide))
  · exact iff_of_true (accepts_total (x := pure (ripemd160 data)) rfl rfl rfl (by decide)
      (not_malformed_of_ne (by decide) (by decide) (by decide) (by decide) (by decide)))
      (served_of_ne (by decide) (by decide) (by decide) (by decide))
  · exact iff_of_true (accepts_total (x := pure (datacopy data)) rfl rfl rfl (by decide)
      (not_malformed_of_ne (by decide) (by decide) (by decide) (by decide) (by decide)))
      (served_of_ne (by decide) (by decide) (by decide) (by decide))
  · exact accepts_bigModExp_iff hpow
  · refine (accepts_curve_iff (fun _ => rfl) rfl (by decide) ?_).trans ?_
    · rintro (⟨h, -⟩ | ⟨-, h⟩ | ⟨h, -⟩ | ⟨h, -⟩ | ⟨h, -⟩)
      exacts [absurd h (by decide), h, absurd h (by decide), absurd h (by decide),
        absurd h (by decide)]
    · exact ⟨fun h => ⟨fun h => absurd h (by decide), fun _ => h, fun h => absurd h (by decide),
        fun h => absurd h (by decide)⟩, fun h => h.2.1 rfl⟩
  · refine (accepts_curve_iff (fun _ => rfl) rfl (by decide) ?_).trans ?_
    · rintro (⟨h, -⟩ | ⟨h, -⟩ | ⟨-, h⟩ | ⟨h, -⟩ | ⟨h, -⟩)
      exacts [absurd h (by decide), absurd h (by decide), h, absurd h (by decide),
        absurd h (by decide)]
    · exact ⟨fun h => ⟨fun h => absurd h (by decide), fun h => absurd h (by decide), fun _ => h,
        fun h => absurd h (by decide)⟩, fun h => h.2.2.1 rfl⟩
  · exact accepts_pairing_iff
  · exact iff_of_true accepts_blake2F
      (served_of_ne (by decide) (by decide) (by decide) (by decide))

end

/-- A platform whose `big_mod_exp` computes the modular power. -/
@[reducible] def powering : Platform :=
  { Platform.bare with
    bigModExp := fun base exponent modulus => toBeBytes modulus.length
      (if ofBeBytes modulus = 0 then 0
        else ofBeBytes base ^ ofBeBytes exponent % ofBeBytes modulus) }

/-- An input of `bigmodexp` that declares one byte for each field. -/
def oneByteFields (fields : Bytes) : Bytes :=
  toBeBytes 32 1 ++ toBeBytes 32 1 ++ toBeBytes 32 1 ++ fields

/-- All fields are there. -/
theorem native_contracts_accept_what_they_serve_power : ∃ (_ : Platform), ModularPower ∧
    Accepts SYSTEM_ACCOUNT_BIGMODEXP (oneByteFields [3, 5, 7]) :=
  letI := powering
  ⟨powering, fun _ _ _ => rfl,
    (native_contracts_accept_what_they_serve (fun _ _ _ => rfl) (by decide)).2
      ⟨fun _ => .inl (by decide +kernel), fun h => absurd h (by decide),
        fun h => absurd h (by decide), fun h => absurd h (by decide)⟩⟩

/-- **A modulus that is cut off aborts**, where it is to be read as zero. -/
theorem bigModExp_aborts_on_a_short_input : ∃ (_ : Platform), ModularPower ∧
    bigModExp (oneByteFields [3, 5]) () = .panic .index ∧
      ¬Accepts SYSTEM_ACCOUNT_BIGMODEXP (oneByteFields [3, 5]) := by
  let _ := powering
  have hrun : bigModExp (oneByteFields [3, 5]) () = .panic .index := by rfl
  refine ⟨powering, fun _ _ _ => rfl, hrun, ?_⟩
  rintro ⟨⟨x, out, hx, hout⟩, -, -, -⟩
  obtain rfl : bigModExp (oneByteFields [3, 5]) = x := Option.some.inj hx
  rw [hrun] at hout
  cases hout

end Precompile

end NeonEvm
