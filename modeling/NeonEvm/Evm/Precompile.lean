import NeonEvm.Platform

/-!
# Evm/Precompile — the nine native contracts

    1 ecrecover  2 sha256  3 ripemd160  4 datacopy  5 bigmodexp
    6 bn256 add  7 bn256 mul  8 bn256 pairing  9 blake2f

None of them fails with an error; some abort on inputs that their libraries refuse.
-/

namespace NeonEvm

open Exec

/-- Exactly `len` bytes: cut off, or padded with zeros on the right. -/
def padRight (bytes : Bytes) (len : ℕ) : Bytes :=
  (bytes ++ List.replicate (len - bytes.length) 0).take len

namespace Precompile

/-! ## blake2f -/

namespace Blake2

def BLAKE2_F_ARG_LEN : ℕ := 213

def SIGMA : List (List ℕ) := [
  [0, 1, 2, 3, 4, 5, 6, 7, 8, 9, 10, 11, 12, 13, 14, 15],
  [14, 10, 4, 8, 9, 15, 13, 6, 1, 12, 0, 2, 11, 7, 5, 3],
  [11, 8, 12, 0, 5, 2, 15, 13, 10, 14, 3, 6, 7, 1, 9, 4],
  [7, 9, 3, 1, 13, 12, 11, 14, 2, 6, 5, 10, 4, 0, 15, 8],
  [9, 0, 5, 7, 2, 4, 10, 15, 14, 1, 11, 12, 6, 8, 3, 13],
  [2, 12, 6, 10, 0, 11, 8, 3, 4, 13, 7, 5, 15, 14, 1, 9],
  [12, 5, 1, 15, 14, 13, 4, 10, 0, 7, 6, 3, 9, 2, 8, 11],
  [13, 11, 7, 14, 12, 1, 3, 9, 5, 0, 15, 4, 8, 6, 2, 10],
  [6, 15, 14, 9, 11, 3, 0, 8, 12, 2, 13, 7, 1, 4, 10, 5],
  [10, 2, 8, 4, 7, 6, 1, 5, 15, 11, 9, 14, 3, 12, 13, 0]]

def IV : List UInt64 := [
  0x6a09e667f3bcc908, 0xbb67ae8584caa73b, 0x3c6ef372fe94f82b, 0xa54ff53a5f1d36f1,
  0x510e527fade682d1, 0x9b05688c2b3e6c1f, 0x1f83d9abfb41bd6b, 0x5be0cd19137e2179]

/-- `u64::rotate_right`. -/
def rotateRight (x : UInt64) (k : UInt64) : UInt64 := (x >>> k) ||| (x <<< (64 - k))

def word (v : List UInt64) (i : ℕ) : UInt64 := v.getD i 0

/-- The mixing function `g`. -/
def g (v : List UInt64) (a b c d : ℕ) (x y : UInt64) : List UInt64 :=
  let v := v.set a (word v a + word v b + x)
  let v := v.set d (rotateRight (word v d ^^^ word v a) 32)
  let v := v.set c (word v c + word v d)
  let v := v.set b (rotateRight (word v b ^^^ word v c) 24)
  let v := v.set a (word v a + word v b + y)
  let v := v.set d (rotateRight (word v d ^^^ word v a) 16)
  let v := v.set c (word v c + word v d)
  v.set b (rotateRight (word v b ^^^ word v c) 63)

/-- The four indices of each of the eight mixings of a round. -/
def LANES : List (ℕ × ℕ × ℕ × ℕ) := [
  (0, 4, 8, 12), (1, 5, 9, 13), (2, 6, 10, 14), (3, 7, 11, 15),
  (0, 5, 10, 15), (1, 6, 11, 12), (2, 7, 8, 13), (3, 4, 9, 14)]

/-- Round number `i`. -/
def round (m : List UInt64) (v : List UInt64) (i : ℕ) : List UInt64 :=
  let s := SIGMA.getD (i % 10) []
  LANES.zipIdx.foldl
    (fun v lane =>
      let ((a, b, c, d), k) := lane
      g v a b c d (word m (s.getD (2 * k) 0)) (word m (s.getD (2 * k + 1) 0)))
    v

/-- The rounds from number `i` on. -/
def rounds (m : List UInt64) : (n i : ℕ) → List UInt64 → List UInt64
  | 0, _, v => v
  | n + 1, i, v => rounds m n (i + 1) (round m v i)

/-- `compress`. -/
def compress (h m : List UInt64) (t0 t1 : UInt64) (f : Bool) (n : ℕ) : List UInt64 :=
  let v := h ++ IV
  let v := v.set 12 (word v 12 ^^^ t0)
  let v := v.set 13 (word v 13 ^^^ t1)
  let v := if f then v.set 14 (~~~(word v 14)) else v
  let v := rounds m n 0 v
  h.zipIdx.map fun (x, i) => x ^^^ (word v i ^^^ word v (i + 8))

/-- `u64::from_le_bytes` of each of the first `n` groups of eight bytes. -/
def littleEndianWords (n : ℕ) (bytes : Bytes) : List UInt64 :=
  (List.range n).map fun i => UInt64.ofNat (ofBeBytes ((bytes.drop (8 * i)).take 8).reverse)

end Blake2

open Blake2 in
/-- `blake2_f`. -/
def blake2F (input : Bytes) : Bytes :=
  if input.length ≠ BLAKE2_F_ARG_LEN then []
  else
    let n := ofBeBytes (input.take 4)
    let h := littleEndianWords 8 (input.drop 4)
    let m := littleEndianWords 16 (input.drop 68)
    let t := littleEndianWords 2 (input.drop 196)
    let flag := input.getD 212 0
    if flag ≠ 0 ∧ flag ≠ 1 then []
    else
      (compress h m (word t 0) (word t 1) (flag = 1) n).flatMap fun w =>
        (toBeBytes 8 w.toNat).reverse

/-! ## The contracts of other libraries -/

def ALT_BN128_ADDITION_INPUT_LEN : ℕ := 128
def ALT_BN128_MULTIPLICATION_INPUT_LEN : ℕ := 128
def ALT_BN128_PAIRING_ELEMENT_LEN : ℕ := 192

/-- `datacopy`. -/
def datacopy (input : Bytes) : Bytes := input

variable [Platform]

/-- `ecrecover`. -/
def ecrecover (data : Bytes) : Bytes :=
  let input := padRight data 128
  let v := ofBeBytes ((input.drop 32).take 32)
  if v < 27 ∨ 30 < v then []
  else
    match Platform.secp256k1Recover (input.take 32) (v - 27) (input.drop 64) with
    | none => []
    | some publicKey => List.replicate 12 0 ++ (addressOfHash (keccak publicKey)).bytes

/-- `sha256`. -/
def sha256 (input : Bytes) : Bytes := (Platform.sha256 input).bytes

/-- `ripemd160`. -/
def ripemd160 (input : Bytes) : Bytes := List.replicate 12 0 ++ Platform.ripemd160 input

/-- `big_mod_exp`. -/
def bigModExp (input : Bytes) : Fallible Bytes :=
  if input.length < 96 then pure []
  else
    match (U256.ofBytes (input.take 32)).toUsize?,
      (U256.ofBytes ((input.drop 32).take 32)).toUsize?,
      (U256.ofBytes ((input.drop 64).take 32)).toUsize? with
    | some baseLen, some expLen, some modLen =>
      if baseLen = 0 ∧ modLen = 0 then pure (List.replicate 32 0)
      else do
        let (baseVal, rest) ← splitAt (input.drop 96) baseLen
        let (expVal, rest) ← splitAt rest expLen
        let (modVal, _) ← splitAt rest modLen
        pure (Platform.bigModExp baseVal expVal modVal)
    | _, _, _ => pure []

/-- `bn256_add`. -/
def bn256Add (input : Bytes) : Fallible Bytes :=
  ofOption .unwrap (Platform.altBn128Addition (padRight input ALT_BN128_ADDITION_INPUT_LEN))

/-- `bn256_scalar_mul`. -/
def bn256ScalarMul (input : Bytes) : Fallible Bytes :=
  ofOption .unwrap
    (Platform.altBn128Multiplication (padRight input ALT_BN128_MULTIPLICATION_INPUT_LEN))

/-- `bn256_pairing`. -/
def bn256Pairing (input : Bytes) : Fallible Bytes :=
  if input = [] then pure (toBeBytes 32 1)
  else if input.length % ALT_BN128_PAIRING_ELEMENT_LEN ≠ 0 then pure (toBeBytes 32 0)
  else ofOption .unwrap (Platform.altBn128Pairing input)

end Precompile

def SYSTEM_ACCOUNT_ECRECOVER : Address := 0x01
def SYSTEM_ACCOUNT_SHA_256 : Address := 0x02
def SYSTEM_ACCOUNT_RIPEMD160 : Address := 0x03
def SYSTEM_ACCOUNT_DATACOPY : Address := 0x04
def SYSTEM_ACCOUNT_BIGMODEXP : Address := 0x05
def SYSTEM_ACCOUNT_BN256_ADD : Address := 0x06
def SYSTEM_ACCOUNT_BN256_SCALAR_MUL : Address := 0x07
def SYSTEM_ACCOUNT_BN256_PAIRING : Address := 0x08
def SYSTEM_ACCOUNT_BLAKE2F : Address := 0x09

/-- `is_precompile_address`. -/
def isPrecompileAddress (address : Address) : Bool :=
  address = SYSTEM_ACCOUNT_ECRECOVER || address = SYSTEM_ACCOUNT_SHA_256
    || address = SYSTEM_ACCOUNT_RIPEMD160 || address = SYSTEM_ACCOUNT_DATACOPY
    || address = SYSTEM_ACCOUNT_BIGMODEXP || address = SYSTEM_ACCOUNT_BN256_ADD
    || address = SYSTEM_ACCOUNT_BN256_SCALAR_MUL || address = SYSTEM_ACCOUNT_BN256_PAIRING
    || address = SYSTEM_ACCOUNT_BLAKE2F

open Precompile in
/-- `Machine::precompile`: nothing unless the address is a precompile. -/
def precompile [Platform] (address : Address) (data : Bytes) : Option (Fallible Bytes) :=
  if address = SYSTEM_ACCOUNT_ECRECOVER then some (pure (ecrecover data))
  else if address = SYSTEM_ACCOUNT_SHA_256 then some (pure (sha256 data))
  else if address = SYSTEM_ACCOUNT_RIPEMD160 then some (pure (ripemd160 data))
  else if address = SYSTEM_ACCOUNT_DATACOPY then some (pure (datacopy data))
  else if address = SYSTEM_ACCOUNT_BIGMODEXP then some (bigModExp data)
  else if address = SYSTEM_ACCOUNT_BN256_ADD then some (bn256Add data)
  else if address = SYSTEM_ACCOUNT_BN256_SCALAR_MUL then some (bn256ScalarMul data)
  else if address = SYSTEM_ACCOUNT_BN256_PAIRING then some (bn256Pairing data)
  else if address = SYSTEM_ACCOUNT_BLAKE2F then some (pure (blake2F data))
  else none

open Precompile in
/-- **No precompile fails**: what it cannot compute is empty, or aborts. -/
theorem precompile_ne_err [Platform] {address : Address} {data : Bytes} {x : Fallible Bytes}
    (hx : precompile address data = some x) (e : Error) : x () ≠ .err e () := by
  have hsplit (bytes : Bytes) (mid : ℕ) :
      (splitAt bytes mid ()).Sat (fun _ _ => True) (fun _ _ => False) fun _ => True := by
    unfold splitAt
    split <;> trivial
  have hmod : (bigModExp data ()).Sat (fun _ _ => True) (fun _ _ => False) fun _ => True := by
    unfold bigModExp
    split
    · trivial
    · generalize (U256.ofBytes (data.take 32)).toUsize? = baseLen
      generalize (U256.ofBytes ((data.drop 32).take 32)).toUsize? = expLen
      generalize (U256.ofBytes ((data.drop 64).take 32)).toUsize? = modLen
      cases baseLen <;> cases expLen <;> cases modLen <;> try trivial
      dsimp only
      split
      · trivial
      · exact (hsplit _ _).andThen fun _ _ _ => (hsplit _ _).andThen fun _ _ _ =>
          (hsplit _ _).andThen fun _ _ _ => trivial
  have hoption (o : Option Bytes) :
      ((ofOption .unwrap o : Fallible Bytes) ()).Sat (fun _ _ => True) (fun _ _ => False)
        fun _ => True := by
    cases o <;> trivial
  have hpairing : (bn256Pairing data ()).Sat (fun _ _ => True) (fun _ _ => False)
      fun _ => True := by
    unfold bn256Pairing
    split
    · trivial
    · split
      · trivial
      · exact hoption _
  have hrun : (x ()).Sat (fun _ _ => True) (fun _ _ => False) fun _ => True := by
    unfold precompile at hx
    repeat' (split at hx)
    all_goals first
      | cases hx; done
      | obtain rfl := Option.some.inj hx
        first | trivial | exact hoption _
  intro h
  rw [h] at hrun
  exact hrun

/-- `precompile` knows exactly the precompile addresses. -/
theorem isSome_precompile [Platform] (address : Address) (data : Bytes) :
    (precompile address data).isSome = isPrecompileAddress address := by
  unfold precompile isPrecompileAddress
  repeat' split
  all_goals simp_all

end NeonEvm
