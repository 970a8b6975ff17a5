import Mathlib.Data.Nat.Bitwise

/-! # Little-endian words — shift, mask, and reassemble

    The byte arithmetic behind every fixed-width field: a word is written as
    its bytes `(v >> 8i) & 0xFF` and read back as the OR of its shifted bytes.

    Both halves are stated over naturals — a byte is a digit of the word in
    base `256`, an OR of shifted bytes is the sum of its digits — so the round
    trips close by linear arithmetic, without bit blasting. -/

namespace LittleEndian

/-- ORing a shifted value above the low bits is an addition. -/
theorem or_shiftLeft {a b k : Nat} (h : a < 2 ^ k) :
    a ||| (b <<< k) = a + 2 ^ k * b := by
  rw [Nat.shiftLeft_eq, Nat.mul_comm b, Nat.or_comm,
    ← Nat.two_pow_add_eq_or_of_lt h, Nat.add_comm]

/-- A shifted byte does not overflow a word it fits in. -/
theorem shiftLeft_byte_mod {n k w : Nat} (hn : n < 256) (hk : k + 8 ≤ w) :
    n <<< k % 2 ^ w = n <<< k := by
  apply Nat.mod_eq_of_lt
  rw [Nat.shiftLeft_eq]
  calc n * 2 ^ k < 2 ^ 8 * 2 ^ k :=
        Nat.mul_lt_mul_of_pos_right hn (Nat.two_pow_pos k)
    _ = 2 ^ (k + 8) := by rw [← Nat.pow_add, Nat.add_comm]
    _ ≤ 2 ^ w := Nat.pow_le_pow_right (by decide) hk

theorem and_255 (n : Nat) : n &&& 255 = n % 256 :=
  Nat.and_two_pow_sub_one_eq_mod n 8

/-- The byte of a 32-bit word at bit `k`. -/
theorem toNat_byte32 (v k : UInt32) (hk : k.toNat < 32) :
    ((v >>> k) &&& 0xFF).toUInt8.toNat = v.toNat / 2 ^ k.toNat % 256 := by
  simp [and_255, Nat.shiftRight_eq_div_pow, Nat.mod_eq_of_lt hk]

/-- The byte of a 64-bit word at bit `k`. -/
theorem toNat_byte64 (v k : UInt64) (hk : k.toNat < 64) :
    ((v >>> k) &&& 0xFF).toUInt8.toNat = v.toNat / 2 ^ k.toNat % 256 := by
  simp [and_255, Nat.shiftRight_eq_div_pow, Nat.mod_eq_of_lt hk]

/-- One reassembly step in a 32-bit word: the next byte lands above the bits
    already gathered. -/
theorem or_byte32 {acc k : UInt32} (b : UInt8) {n : Nat} (ha : acc.toNat = n)
    (hn : n < 2 ^ k.toNat) (hk : k.toNat + 8 ≤ 32) :
    (acc ||| b.toUInt32 <<< k).toNat = n + 2 ^ k.toNat * b.toNat := by
  rw [UInt32.toNat_or, UInt32.toNat_shiftLeft, UInt8.toNat_toUInt32, ha,
    Nat.mod_eq_of_lt (by omega : k.toNat < 32), shiftLeft_byte_mod b.toNat_lt hk]
  exact or_shiftLeft hn

/-- One reassembly step in a 64-bit word. -/
theorem or_byte64 {acc k : UInt64} (b : UInt8) {n : Nat} (ha : acc.toNat = n)
    (hn : n < 2 ^ k.toNat) (hk : k.toNat + 8 ≤ 64) :
    (acc ||| b.toUInt64 <<< k).toNat = n + 2 ^ k.toNat * b.toNat := by
  rw [UInt64.toNat_or, UInt64.toNat_shiftLeft, UInt8.toNat_toUInt64, ha,
    Nat.mod_eq_of_lt (by omega : k.toNat < 64), shiftLeft_byte_mod b.toNat_lt hk]
  exact or_shiftLeft hn

theorem toNat_low32 (b : UInt8) : (b.toUInt32 <<< 0).toNat = b.toNat := by
  have := b.toNat_lt
  simp only [UInt32.toNat_shiftLeft, UInt8.toNat_toUInt32, UInt32.reduceToNat,
    Nat.reduceMod, Nat.shiftLeft_zero]
  omega

theorem toNat_low64 (b : UInt8) : (b.toUInt64 <<< 0).toNat = b.toNat := by
  have := b.toNat_lt
  simp only [UInt64.toNat_shiftLeft, UInt8.toNat_toUInt64, UInt64.reduceToNat,
    Nat.reduceMod, Nat.shiftLeft_zero]
  omega

/-- The OR of four shifted bytes is the number they spell. -/
theorem toNat_combine32 (b0 b1 b2 b3 : UInt8) :
    ((b0.toUInt32 <<< 0) ||| (b1.toUInt32 <<< 8)
      ||| (b2.toUInt32 <<< 16) ||| (b3.toUInt32 <<< 24)).toNat
      = b0.toNat + 2 ^ 8 * b1.toNat + 2 ^ 16 * b2.toNat + 2 ^ 24 * b3.toNat := by
  have h0 := b0.toNat_lt
  have h1 := b1.toNat_lt
  have h2 := b2.toNat_lt
  have e1 := or_byte32 (k := 8) b1 (toNat_low32 b0) h0 (by decide)
  have e2 := or_byte32 (k := 16) b2 e1 (by simp only [UInt32.reduceToNat]; omega)
    (by decide)
  exact or_byte32 (k := 24) b3 e2 (by simp only [UInt32.reduceToNat]; omega)
    (by decide)

/-- The OR of two shifted bytes in a 64-bit word. -/
theorem toNat_combine64_two (b0 b1 : UInt8) :
    ((b0.toUInt64 <<< 0) ||| (b1.toUInt64 <<< 8)).toNat
      = b0.toNat + 2 ^ 8 * b1.toNat :=
  or_byte64 (k := 8) b1 (toNat_low64 b0) b0.toNat_lt (by decide)

/-- The OR of four shifted bytes in a 64-bit word. -/
theorem toNat_combine64_four (b0 b1 b2 b3 : UInt8) :
    ((b0.toUInt64 <<< 0) ||| (b1.toUInt64 <<< 8)
      ||| (b2.toUInt64 <<< 16) ||| (b3.toUInt64 <<< 24)).toNat
      = b0.toNat + 2 ^ 8 * b1.toNat + 2 ^ 16 * b2.toNat + 2 ^ 24 * b3.toNat := by
  have h0 := b0.toNat_lt
  have h1 := b1.toNat_lt
  have h2 := b2.toNat_lt
  have e2 := or_byte64 (k := 16) b2 (toNat_combine64_two b0 b1)
    (by simp only [UInt64.reduceToNat]; omega) (by decide)
  exact or_byte64 (k := 24) b3 e2 (by simp only [UInt64.reduceToNat]; omega)
    (by decide)

/-- The OR of eight shifted bytes is the number they spell. -/
theorem toNat_combine64 (b0 b1 b2 b3 b4 b5 b6 b7 : UInt8) :
    ((b0.toUInt64 <<< 0) ||| (b1.toUInt64 <<< 8)
      ||| (b2.toUInt64 <<< 16) ||| (b3.toUInt64 <<< 24)
      ||| (b4.toUInt64 <<< 32) ||| (b5.toUInt64 <<< 40)
      ||| (b6.toUInt64 <<< 48) ||| (b7.toUInt64 <<< 56)).toNat
      = b0.toNat + 2 ^ 8 * b1.toNat + 2 ^ 16 * b2.toNat + 2 ^ 24 * b3.toNat
        + 2 ^ 32 * b4.toNat + 2 ^ 40 * b5.toNat
        + 2 ^ 48 * b6.toNat + 2 ^ 56 * b7.toNat := by
  have h0 := b0.toNat_lt
  have h1 := b1.toNat_lt
  have h2 := b2.toNat_lt
  have h3 := b3.toNat_lt
  have h4 := b4.toNat_lt
  have h5 := b5.toNat_lt
  have h6 := b6.toNat_lt
  have e4 := or_byte64 (k := 32) b4 (toNat_combine64_four b0 b1 b2 b3)
    (by simp only [UInt64.reduceToNat]; omega) (by decide)
  have e5 := or_byte64 (k := 40) b5 e4 (by simp only [UInt64.reduceToNat]; omega)
    (by decide)
  have e6 := or_byte64 (k := 48) b6 e5 (by simp only [UInt64.reduceToNat]; omega)
    (by decide)
  exact or_byte64 (k := 56) b7 e6 (by simp only [UInt64.reduceToNat]; omega)
    (by decide)

end LittleEndian
