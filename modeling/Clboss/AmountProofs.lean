import Mathlib.Data.Nat.ModEq

/-! # `Ln::Amount` — millisatoshi in 64 bits

    An amount is a 64-bit count of millisatoshi.  `sat` multiplies in 64-bit
    arithmetic and `toSat` ROUNDS UP, so the two are inverse exactly on whole
    satoshi that do not overflow; everything up to the 21 million BTC supply
    is far inside. -/

namespace Ln

/-- An amount of bitcoin, in millisatoshi. -/
structure Amount where
  v : UInt64
deriving DecidableEq, Repr

namespace Amount

/-- `Amount::sat`: from satoshi, in 64-bit arithmetic. -/
def sat (v : UInt64) : Amount := ⟨v * 1000⟩

/-- `to_sat`: to satoshi, rounding up. -/
def toSat (a : Amount) : UInt64 := (a.v + 999) / 1000

/-- `Amount::msat`. -/
def msat (v : UInt64) : Amount := ⟨v⟩

/-- `to_msat`. -/
def toMsat (a : Amount) : UInt64 := a.v

/-- `operator+`: saturates. -/
def add (a i : Amount) : Amount :=
  if a.v + i.v < i.v then ⟨0xFFFFFFFFFFFFFFFF⟩ else ⟨a.v + i.v⟩

/-- `operator-`: stops at zero. -/
def sub (a i : Amount) : Amount :=
  if i.v > a.v then ⟨0⟩ else ⟨a.v - i.v⟩

/-- The 21 million BTC supply, in satoshi. -/
def maxSat : UInt64 := 2100000000000000

/-- A whole number of satoshi within the supply. -/
def WholeSat (a : Amount) : Prop := ∃ s : UInt64, s ≤ maxSat ∧ a = sat s

theorem toNat_sat {s : UInt64} (h : s ≤ maxSat) :
    (sat s).v.toNat = s.toNat * 1000 := by
  have hs : s.toNat ≤ 2100000000000000 := UInt64.le_iff_toNat_le.mp h
  show (s * 1000).toNat = s.toNat * 1000
  rw [UInt64.toNat_mul]
  exact Nat.mod_eq_of_lt (by simp only [UInt64.reduceToNat]; omega)

/-- A sum is exact up to the largest amount, and that amount beyond. -/
theorem toNat_add (a b : Amount) :
    (a.add b).v.toNat = min (2 ^ 64 - 1) (a.v.toNat + b.v.toNat) := by
  have ha := a.v.toNat_lt
  have hb := b.v.toNat_lt
  have hsum : (a.v + b.v).toNat = (a.v.toNat + b.v.toNat) % 2 ^ 64 := UInt64.toNat_add _ _
  unfold add
  split
  · rename_i hlt
    have hlt' := UInt64.lt_iff_toNat_lt.mp hlt
    rw [hsum] at hlt'
    show 2 ^ 64 - 1 = _
    omega
  · rename_i hge
    have hge' : ¬ (a.v + b.v).toNat < b.v.toNat := fun h => hge (UInt64.lt_iff_toNat_lt.mpr h)
    rw [hsum] at hge'
    show (a.v + b.v).toNat = _
    rw [hsum]
    omega

/-- Whole satoshi within the supply survive the trip through millisatoshi. -/
theorem toSat_sat {s : UInt64} (h : s ≤ maxSat) : (sat s).toSat = s := by
  have hs : s.toNat ≤ 2100000000000000 := UInt64.le_iff_toNat_le.mp h
  apply UInt64.toNat_inj.mp
  show (((sat s).v + 999) / 1000).toNat = s.toNat
  rw [UInt64.toNat_div, UInt64.toNat_add, toNat_sat h]
  simp only [UInt64.reduceToNat]
  omega

/-- Satoshi survive the trip EXACTLY where their millisatoshi, rounded up to a
    satoshi, do not wrap. -/
theorem toSat_sat_eq_iff (s : UInt64) : (sat s).toSat = s ↔ s.toNat ≤ 18446744073709550 := by
  have hs := s.toNat_lt
  rw [← UInt64.toNat_inj]
  unfold sat toSat
  simp only [UInt64.toNat_div, UInt64.toNat_add, UInt64.toNat_mul, UInt64.reduceToNat]
  omega

/-- Below `2^61` satoshi, different counts are different amounts: 1000 is `8 * 125`. -/
theorem sat_inj {s t : UInt64} (hs : s.toNat < 2 ^ 61) (ht : t.toNat < 2 ^ 61)
    (h : sat s = sat t) : s = t := by
  have hv : s * 1000 = t * 1000 := congrArg Amount.v h
  rw [← UInt64.toNat_inj, UInt64.toNat_mul, UInt64.toNat_mul] at hv
  have hmod : s.toNat * 1000 ≡ t.toNat * 1000 [MOD 2 ^ 64] := hv
  have hcancel : s.toNat ≡ t.toNat [MOD 2 ^ 61] :=
    Nat.ModEq.cancel_right_div_gcd (by decide) hmod
  rw [← UInt64.toNat_inj]
  exact hcancel.eq_of_lt_of_lt hs ht

/-- A whole amount is recovered from its satoshi count. -/
theorem sat_toSat {a : Amount} (h : a.WholeSat) : sat a.toSat = a := by
  obtain ⟨s, hs, rfl⟩ := h
  rw [toSat_sat hs]

end Amount

end Ln
