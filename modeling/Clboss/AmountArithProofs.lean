import Clboss.AmountProofs
import Clboss.DoubleProofs

/-! # `Ln::Amount` — comparison, and arithmetic through `double`

    An amount is multiplied and divided in `double`, which holds 53 bits of its
    64.  Doubling is exact just for the amounts that `double` holds
    (`toNat_mul_two`). -/

namespace Ln.Amount

/-- `Amount::btc`. -/
def btc (v : Double) : Amount :=
  match v.mul ((Double.finite 100000000).mul (.finite 1000)) with
  | .finite q => ⟨UInt64.ofNat ⌊q⌋.toNat⟩
  | _         => ⟨0⟩

/-- `operator*`: in `double`, stopping at zero and at the largest amount.  What the
    conversion makes of `2 ^ 64` itself the language leaves open. -/
def mul (a : Amount) (i : Double) : Amount :=
  let dv := (Double.ofInt a.v.toNat).mul i
  if dv.lt (.finite 0) then ⟨0⟩
  else if (Double.ofInt 0xFFFFFFFFFFFFFFFF).lt dv then ⟨0xFFFFFFFFFFFFFFFF⟩
  else
    match dv with
    | .finite q => ⟨UInt64.ofNat ⌊q⌋.toNat⟩
    | _         => ⟨0⟩

/-- `operator/` by a `double`. -/
def div (a : Amount) (i : Double) : Amount :=
  let dv := (Double.ofInt a.v.toNat).div i
  if dv.lt (.finite 0) then ⟨0⟩
  else if (Double.ofInt 0xFFFFFFFFFFFFFFFF).lt dv then ⟨0xFFFFFFFFFFFFFFFF⟩
  else
    match dv with
    | .finite q => ⟨UInt64.ofNat ⌊q⌋.toNat⟩
    | _         => ⟨0⟩

/-- Half of an amount, to the msat. -/
def half (a : Amount) : Amount := ⟨a.v / 2⟩

/-- `operator/` of two amounts. -/
def ratio (a i : Amount) : Double := (Double.ofInt a.v.toNat).div (Double.ofInt i.v.toNat)

/-! ## Order -/

/-- `operator<=`. -/
def le (a b : Amount) : Bool := !(b.v < a.v)

/-- `operator<`. -/
def lt (a b : Amount) : Bool := a.v < b.v

theorem not_lt (a b : Amount) : (!a.lt b) = b.le a := rfl

theorem le_iff (a b : Amount) : a.le b = true ↔ a.v.toNat ≤ b.v.toNat := by
  unfold le
  rw [Bool.not_eq_true', decide_eq_false_iff_not, UInt64.lt_iff_toNat_lt, Nat.not_lt]

theorem lt_iff (a b : Amount) : a.lt b = true ↔ a.v.toNat < b.v.toNat := by
  unfold lt
  rw [decide_eq_true_iff, UInt64.lt_iff_toNat_lt]

theorem toNat_sub (a b : Amount) : (a.sub b).v.toNat = a.v.toNat - b.v.toNat := by
  unfold sub
  split
  · rename_i hlt
    have hlt' := UInt64.lt_iff_toNat_lt.mp hlt
    show 0 = _
    omega
  · rename_i hge
    have hge' : b.v ≤ a.v := UInt64.not_lt.mp hge
    exact UInt64.toNat_sub_of_le _ _ hge'

theorem toNat_raised (a floor : Amount) :
    (if a.lt floor then floor else a).v.toNat = max a.v.toNat floor.v.toNat := by
  by_cases h : a.v.toNat < floor.v.toNat
  · rw [if_pos ((lt_iff _ _).mpr h), Nat.max_eq_right h.le]
  · rw [if_neg (fun hlt => h ((lt_iff _ _).mp hlt)), Nat.max_eq_left (Nat.le_of_not_lt h)]

theorem toNat_capped (a cap : Amount) :
    (if cap.lt a then cap else a).v.toNat = min a.v.toNat cap.v.toNat := by
  by_cases h : cap.v.toNat < a.v.toNat
  · rw [if_pos ((lt_iff _ _).mpr h), Nat.min_eq_right h.le]
  · rw [if_neg (fun hlt => h ((lt_iff _ _).mp hlt)), Nat.min_eq_left (Nat.le_of_not_lt h)]

theorem toNat_half (a : Amount) : a.half.v.toNat = a.v.toNat / 2 := UInt64.toNat_div _ _

/-! ## Doubling -/

/-- A `double` can hold the amount. -/
def IsDouble (a : Amount) : Prop := Double.round a.v.toNat = a.v.toNat

instance (a : Amount) : Decidable a.IsDouble := inferInstanceAs (Decidable (_ = _))

/-- What doubling makes of an amount: it is rounded, doubled, and stops at the largest. -/
theorem mul_two_eq {a : Amount} (h : 1 ≤ a.v.toNat) :
    ∃ k : ℕ, Double.round (Double.round a.v.toNat) = k
      ∧ (a.mul (.finite 2)).v.toNat = if 2 ^ 64 < 2 * k then 2 ^ 64 - 1 else 2 * k % 2 ^ 64 := by
  have hlt := a.v.toNat_lt
  have hq1 : (2 : ℚ) ^ (0 : ℤ) ≤ (a.v.toNat : ℚ) := by
    rw [zpow_zero]
    exact_mod_cast h
  have hq64 : (a.v.toNat : ℚ) < 2 ^ 64 := by exact_mod_cast hlt
  have hone := Double.two_zpow_le_round_of_le (by norm_num) hq1
  have hround := Double.round_le_two_pow (Nat.cast_nonneg _) hq64
  obtain ⟨m, hm⟩ := Double.exists_round_natCast a.v.toNat
  rw [hm, zpow_zero] at hone
  rw [hm] at hround
  have hm65 : (2 : ℚ) * m < 2 ^ 66 := by linarith
  obtain ⟨k, hk⟩ := Double.exists_round_natCast m
  refine ⟨k, by rw [hm, hk], ?_⟩
  have hint : Double.ofInt (a.v.toNat : ℤ) = .finite m := by
    unfold Double.ofInt
    rw [Int.cast_natCast, Double.ofRat_of_lt (k := 64) (by norm_num) (Nat.cast_nonneg _) hq64, hm]
  have hdouble : (Double.finite (m : ℚ)).mul (.finite 2) = .finite ((2 * k : ℕ) : ℚ) := by
    show Double.ofRat ((m : ℚ) * 2) = _
    rw [mul_comm, Double.ofRat_of_lt (k := 66) (by norm_num) (by positivity) hm65,
      Double.round_two_mul hone, hk]
    push_cast
    rfl
  have hneg : (Double.finite ((2 * k : ℕ) : ℚ)).lt (.finite 0) = false :=
    decide_eq_false (not_lt_of_ge (Nat.cast_nonneg _))
  have hmax : Double.ofInt 0xFFFFFFFFFFFFFFFF = .finite ((2 ^ 64 : ℕ) : ℚ) := by decide +kernel
  unfold mul
  rw [hint]
  simp only [hdouble, hneg, hmax, Bool.false_eq_true, if_false]
  by_cases hk64 : 2 ^ 64 < 2 * k
  · have hover : (Double.finite ((2 ^ 64 : ℕ) : ℚ)).lt (.finite ((2 * k : ℕ) : ℚ)) = true :=
      decide_eq_true (by exact_mod_cast hk64)
    rw [if_pos hk64, if_pos hover]
    rfl
  · have hunder : (Double.finite ((2 ^ 64 : ℕ) : ℚ)).lt (.finite ((2 * k : ℕ) : ℚ)) = false :=
      decide_eq_false (by exact_mod_cast hk64)
    rw [if_neg hk64, hunder, if_neg Bool.false_ne_true, Int.floor_natCast]
    rfl

/-- **SPEC**: twice an amount is twice the amount exactly if `double` holds it. -/
theorem toNat_mul_two {a : Amount} (h : 1 ≤ a.v.toNat) :
    (a.mul (.finite 2)).v.toNat = 2 * a.v.toNat
      ↔ a.IsDouble ∧ 2 * a.v.toNat < 2 ^ 64 := by
  obtain ⟨k, hk, hmul⟩ := mul_two_eq h
  rw [hmul]
  constructor
  · intro heq
    have hkn : k = a.v.toNat := by
      split at heq
      · omega
      · omega
    refine ⟨?_, by split at heq <;> omega⟩
    -- a number that is not rounded to itself is not reached by rounding twice
    rw [hkn] at hk
    have hnonneg : (0 : ℚ) ≤ a.v.toNat := Nat.cast_nonneg _
    rcases le_total (a.v.toNat : ℚ) (Double.round a.v.toNat) with hle | hle
    · have hmono := Double.round_mono hnonneg hle
      rw [hk] at hmono
      exact le_antisymm hmono hle
    · have hmono := Double.round_mono (Double.round_nonneg hnonneg) hle
      rw [hk] at hmono
      exact le_antisymm hle hmono
  · rintro ⟨hdouble, hlt⟩
    have hkn : k = a.v.toNat := by
      unfold IsDouble at hdouble
      rw [hdouble, hdouble] at hk
      exact_mod_cast hk.symm
    rw [hkn, if_neg (by omega), Nat.mod_eq_of_lt hlt]

end Ln.Amount
