import Mathlib.Data.Nat.Digits.Lemmas
import NeonEvm.Types.Word

/-!
# Types/Rlp — recursive length encoding

    bytes  [b], b < 0x80 | 0x80+n, bytes | 0xb7+k, n, bytes
    list                   0xc0+n, items | 0xf7+k, n, items

The encoding of byte strings, of naturals and of lists of encoded items.
-/

namespace NeonEvm.Rlp

/-- The big-endian bytes of a natural, none of them a leading zero. -/
def minimalBytes (n : ℕ) : Bytes := ((Nat.digits 256 n).map UInt8.ofNat).reverse

theorem minimalBytes_of_pos {n : ℕ} (hn : 0 < n) :
    minimalBytes n = minimalBytes (n / 256) ++ [UInt8.ofNat n] := by
  rw [minimalBytes, Nat.digits_def' (by decide) hn]
  simp [minimalBytes, ← UInt8.toNat_inj]

/-- **Reading back a number** that was written without leading zeros. -/
@[simp] theorem ofBeBytes_minimalBytes (n : ℕ) : ofBeBytes (minimalBytes n) = n := by
  induction n using Nat.strongRecOn with
  | ind n ih =>
    rcases Nat.eq_zero_or_pos n with rfl | hn
    · rfl
    · rw [minimalBytes_of_pos hn, ofBeBytes_append_singleton, ih _ (by omega), UInt8.toNat_ofNat']
      omega

theorem head?_minimalBytes (n : ℕ) : (minimalBytes n).head? ≠ some 0 := by
  induction n using Nat.strongRecOn with
  | ind n ih =>
    rcases Nat.eq_zero_or_pos n with rfl | hn
    · simp [minimalBytes]
    · rw [minimalBytes_of_pos hn, List.head?_append]
      rcases Nat.eq_zero_or_pos (n / 256) with h0 | h0
      · have hlow : n % 256 ≠ 0 := by omega
        simpa [h0, minimalBytes, ← UInt8.toNat_inj] using hlow
      · intro h
        rcases Option.or_eq_some_iff.1 h with h | ⟨h, -⟩
        · exact ih _ (by omega) h
        · rw [List.head?_eq_none_iff] at h
          have hzero := ofBeBytes_minimalBytes (n / 256)
          rw [h] at hzero
          exact h0.ne hzero

/-- **Writing back a number** that was read from bytes without a leading zero. -/
theorem minimalBytes_ofBeBytes {bs : Bytes} (h : bs.head? ≠ some 0) :
    minimalBytes (ofBeBytes bs) = bs := by
  induction bs using List.reverseRecOn with
  | nil => rfl
  | append_singleton bs b ih =>
    have hb := b.toNat_lt
    have hb' : UInt8.ofNat (ofBeBytes bs * 256 + b.toNat) = b := by
      refine UInt8.toNat_inj.1 ?_
      rw [UInt8.toNat_ofNat']
      omega
    have hbs : bs.head? ≠ some 0 := fun h0 => h (by simp [List.head?_append, h0])
    rw [ofBeBytes_append_singleton]
    rcases Nat.eq_zero_or_pos (ofBeBytes bs) with h0 | h0
    · have hnil := ih hbs
      rw [h0] at hnil
      subst hnil
      have hpos : 0 < b.toNat := Nat.pos_of_ne_zero fun h1 => h (by
        simpa [minimalBytes, ← UInt8.toNat_inj] using h1)
      rw [minimalBytes_of_pos (by omega), hb']
      simp [minimalBytes, Nat.div_eq_of_lt hb]
    · have hdiv : (ofBeBytes bs * 256 + b.toNat) / 256 = ofBeBytes bs := by omega
      rw [minimalBytes_of_pos (by omega), hdiv, ih hbs, hb']

theorem length_minimalBytes_le {n k : ℕ} (h : n < 256 ^ k) : (minimalBytes n).length ≤ k := by
  rw [minimalBytes, List.length_reverse, List.length_map]
  exact (Nat.digits_length_le_iff (by decide) n).2 h

theorem length_minimalBytes_pos {n : ℕ} (h : 0 < n) : 0 < (minimalBytes n).length := by
  rw [minimalBytes_of_pos h]
  simp

/-- The header of a payload: one byte for a short one, the length's own bytes for a long one. -/
def header (short long : ℕ) (len : ℕ) : Bytes :=
  if len < 56 then [UInt8.ofNat (short + len)]
  else
    let size := minimalBytes len
    UInt8.ofNat (long + size.length) :: size

/-- The encoding of a byte string. -/
def encodeBytes (bs : Bytes) : Bytes :=
  match bs with
  | [b] => if b < 0x80 then [b] else header 0x80 0xb7 1 ++ [b]
  | bs => header 0x80 0xb7 bs.length ++ bs

/-- The encoding of a natural. -/
def encodeNat (n : ℕ) : Bytes := encodeBytes (minimalBytes n)

/-- The encoding of a list of encoded items. -/
def encodeList (items : List Bytes) : Bytes :=
  header 0xc0 0xf7 items.flatten.length ++ items.flatten

end NeonEvm.Rlp
