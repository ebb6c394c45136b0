import Mathlib.Data.BitVec
import Mathlib.Data.Nat.Digits.Defs
import Mathlib.Data.Nat.Log

/-!
# Types/Word — machine words, addresses and their big-endian bytes

`U256`, `[u8; 32]` and `Pubkey` are 256-bit vectors, an Ethereum address a 160-bit one; a byte
string is a list.  `usize`, `u64`, `u32`, `u16` and `u8` are naturals, wrapped where the release
build wraps them.
-/

namespace NeonEvm

/-- `ethnum::U256`, and `[u8; 32]` read big-endian. -/
abbrev U256 := BitVec 256

/-- An Ethereum address. -/
abbrev Address := BitVec 160

instance (a : Address) (addresses : List Address) : Decidable (a ∈ addresses) :=
  List.instDecidableMemOfLawfulBEq a addresses

/-- A Solana public key. -/
abbrev Pubkey := BitVec 256

instance (key : Pubkey) (keys : List Pubkey) : Decidable (key ∈ keys) :=
  List.instDecidableMemOfLawfulBEq key keys

/-- A byte string. -/
abbrev Bytes := List UInt8

/-- The number of values of a `usize` (and of a `u64`). -/
def USIZE : ℕ := 2 ^ 64

/-- `u64::MAX`. -/
def U64_MAX : ℕ := USIZE - 1

/-- `usize` addition in the release build. -/
def wrappingAdd (a b : ℕ) : ℕ := (a + b) % USIZE

/-- `usize::saturating_add`. -/
def saturatingAdd (a b : ℕ) : ℕ := min (a + b) U64_MAX

/-- `usize::checked_add`. -/
def checkedAdd (a b : ℕ) : Option ℕ := if a + b < USIZE then some (a + b) else none

/-- `usize::try_from` of a 256-bit word. -/
def U256.toUsize? (a : U256) : Option ℕ := if a.toNat < USIZE then some a.toNat else none

/-- The number a big-endian byte string spells. -/
def ofBeBytes (bs : Bytes) : ℕ := bs.foldl (fun n b => n * 256 + b.toNat) 0

/-- The low `len` bytes of a number, big-endian. -/
def toBeBytes : (len : ℕ) → ℕ → Bytes
  | 0, _ => []
  | k + 1, n => toBeBytes k (n / 256) ++ [UInt8.ofNat n]

/-- `U256::from_be_bytes`. -/
def U256.ofBytes (bs : Bytes) : U256 := BitVec.ofNat 256 (ofBeBytes bs)

/-- `U256::to_be_bytes`. -/
def U256.bytes (a : U256) : Bytes := toBeBytes 32 a.toNat

/-- The bytes of a key. -/
def Pubkey.bytes (k : Pubkey) : Bytes := toBeBytes 32 k.toNat

/-- The bytes of an address. -/
def Address.bytes (a : Address) : Bytes := toBeBytes 20 a.toNat

@[simp] theorem length_toBeBytes (len n : ℕ) : (toBeBytes len n).length = len := by
  induction len generalizing n with
  | zero => rfl
  | succ k ih => simp [toBeBytes, ih]

@[simp] theorem ofBeBytes_nil : ofBeBytes [] = 0 := rfl

@[simp] theorem ofBeBytes_append_singleton (bs : Bytes) (b : UInt8) :
    ofBeBytes (bs ++ [b]) = ofBeBytes bs * 256 + b.toNat := by simp [ofBeBytes]

/-- **Reading back a number** that was written in `len` bytes. -/
theorem ofBeBytes_toBeBytes (len n : ℕ) : ofBeBytes (toBeBytes len n) = n % 256 ^ len := by
  induction len generalizing n with
  | zero => simp [toBeBytes, Nat.mod_one]
  | succ k ih =>
    rw [toBeBytes, ofBeBytes_append_singleton, ih, pow_succ', Nat.mod_mul]
    simp [Nat.mul_comm, Nat.add_comm]

/-- **Writing back a number** that was read. -/
theorem toBeBytes_ofBeBytes (bs : Bytes) : toBeBytes bs.length (ofBeBytes bs) = bs := by
  induction bs using List.reverseRecOn with
  | nil => rfl
  | append_singleton bs b ih =>
    have hb := b.toNat_lt
    have hdiv : (ofBeBytes bs * 256 + b.toNat) / 256 = ofBeBytes bs := by omega
    have hmod : UInt8.ofNat (ofBeBytes bs * 256 + b.toNat) = b := by
      refine UInt8.toNat_inj.1 ?_
      rw [UInt8.toNat_ofNat']
      omega
    rw [List.length_append, List.length_singleton, toBeBytes, ofBeBytes_append_singleton, hdiv, ih,
      hmod]

theorem ofBeBytes_lt (bs : Bytes) : ofBeBytes bs < 256 ^ bs.length := by
  have h := ofBeBytes_toBeBytes bs.length (ofBeBytes bs)
  rw [toBeBytes_ofBeBytes] at h
  exact h ▸ Nat.mod_lt _ (Nat.pow_pos (by decide))

/-- **A word is read back** from its bytes. -/
theorem U256.ofBytes_bytes (a : U256) : U256.ofBytes a.bytes = a := by
  refine BitVec.eq_of_toNat_eq ?_
  rw [U256.ofBytes, U256.bytes, ofBeBytes_toBeBytes, BitVec.toNat_ofNat,
    Nat.mod_eq_of_lt (show a.toNat < 256 ^ 32 from a.isLt), Nat.mod_eq_of_lt a.isLt]

/-- **A word is written back** as the bytes it was read from. -/
theorem U256.bytes_ofBytes {bs : Bytes} (h : bs.length = 32) : (U256.ofBytes bs).bytes = bs := by
  have hlt : ofBeBytes bs < 2 ^ 256 := by
    have := ofBeBytes_lt bs
    rwa [h, show (256 : ℕ) ^ 32 = 2 ^ 256 from rfl] at this
  rw [U256.bytes, U256.ofBytes, BitVec.toNat_ofNat, Nat.mod_eq_of_lt hlt, ← h, toBeBytes_ofBeBytes]

@[simp] theorem U256.length_bytes (a : U256) : a.bytes.length = 32 := length_toBeBytes _ _

/-! ## Texts

What `format!` makes of these values. -/

/-- `{:X}` of a number. -/
def upperHex (n : ℕ) : String := String.ofList ((Nat.toDigits 16 n).map Char.toUpper)

/-- `{:x}` of a number. -/
def lowerHex (n : ℕ) : String := String.ofList (Nat.toDigits 16 n)

/-- `hex::encode`. -/
def hexEncode (bs : Bytes) : String :=
  String.ofList (bs.flatMap fun b =>
    [Nat.digitChar (b.toNat / 16), Nat.digitChar (b.toNat % 16)])

/-- `Display for Address`: `0x` and 40 hexadecimal digits. -/
def Address.display (a : Address) : String := "0x" ++ hexEncode a.bytes

/-- The alphabet of base 58. -/
def base58Alphabet : List Char :=
  "123456789ABCDEFGHJKLMNPQRSTUVWXYZabcdefghijkmnopqrstuvwxyz".toList

/-- `Display for Pubkey`: base 58, with a `1` for every leading zero byte. -/
def Pubkey.display (k : Pubkey) : String :=
  let zeros := k.bytes.takeWhile (· = 0)
  let digits := (Nat.digits 58 k.toNat).reverse
  String.ofList (zeros.map (fun _ => '1') ++ digits.map fun d => base58Alphabet.getD d '1')

end NeonEvm
