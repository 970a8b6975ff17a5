import Mathlib.Algebra.Order.Floor.Ring
import Mathlib.Data.Int.Log
import Mathlib.Data.Rat.Floor
import Mathlib.Order.WithBot
import Mathlib.Tactic.FieldSimp
import Mathlib.Tactic.Linarith
import Mathlib.Tactic.Positivity
import Mathlib.Tactic.Ring

/-! # `double` — IEEE 754 binary64 arithmetic on rationals

    A finite double is the rational it stands for, and an operation computes the
    exact result and ROUNDS it: to the nearest multiple of the unit in the last
    place, to the even one of two nearest, and to an infinity from `2 ^ 1024`
    on.  The sign of a zero is not kept; it only shows when dividing by it.

    Three facts about rounding are all that is used: it is monotone, it is
    exact on integers up to `2 ^ 53`, and its relative error is at most
    `2 ^ (-53)`. -/

namespace Double

/-! ## Rounding to integers -/

/-- The nearest integer, the even one of two. -/
def roundHalfEven (q : ℚ) : ℤ :=
  if q - ⌊q⌋ < 1 / 2 then ⌊q⌋
  else if 1 / 2 < q - ⌊q⌋ then ⌊q⌋ + 1
  else if ⌊q⌋ % 2 = 0 then ⌊q⌋ else ⌊q⌋ + 1

theorem floor_le_roundHalfEven (q : ℚ) : ⌊q⌋ ≤ roundHalfEven q := by
  unfold roundHalfEven
  split_ifs <;> omega

theorem roundHalfEven_le_floor (q : ℚ) : roundHalfEven q ≤ ⌊q⌋ + 1 := by
  unfold roundHalfEven
  split_ifs <;> omega

theorem roundHalfEven_intCast (n : ℤ) : roundHalfEven n = n := by
  unfold roundHalfEven
  rw [Int.floor_intCast, sub_self, if_pos (by norm_num)]

theorem abs_roundHalfEven_sub_le (q : ℚ) : |(roundHalfEven q : ℚ) - q| ≤ 1 / 2 := by
  have hlt := Int.lt_floor_add_one q
  have hle := Int.floor_le q
  rw [abs_le]
  unfold roundHalfEven
  split_ifs with h₁ h₂ h₃
  · constructor <;> linarith
  · push_cast
    constructor <;> linarith
  · constructor <;> linarith
  · push_cast
    constructor <;> linarith

theorem roundHalfEven_mono {p q : ℚ} (h : p ≤ q) : roundHalfEven p ≤ roundHalfEven q := by
  rcases (Int.floor_le_floor h).lt_or_eq with hlt | heq
  · -- a whole integer lies between the two
    have h₁ := roundHalfEven_le_floor p
    have h₂ := floor_le_roundHalfEven q
    omega
  · unfold roundHalfEven
    rw [heq]
    split_ifs <;> first | omega | (exfalso; linarith)

/-! ## Rounding to 53 bits -/

/-- The exponent of the unit in the last place of `q`. -/
def ulpExponent (q : ℚ) : ℤ := max (Int.log 2 |q| - 52) (-1074)

/-- Round to the nearest double, as if there was no largest one. -/
def round (q : ℚ) : ℚ := roundHalfEven (q / 2 ^ ulpExponent q) * 2 ^ ulpExponent q

theorem two_zpow_pos (e : ℤ) : (0 : ℚ) < 2 ^ e := zpow_pos (by norm_num) e

@[simp]
theorem round_zero : round 0 = 0 := by
  unfold round
  rw [zero_div]
  have : roundHalfEven 0 = 0 := by exact_mod_cast roundHalfEven_intCast 0
  rw [this]
  simp

/-- Half a unit in the last place is the most that rounding changes. -/
theorem abs_round_sub_le (q : ℚ) : |round q - q| ≤ 2 ^ ulpExponent q / 2 := by
  have hu := two_zpow_pos (ulpExponent q)
  have h := abs_roundHalfEven_sub_le (q / 2 ^ ulpExponent q)
  have hq : round q - q
      = ((roundHalfEven (q / 2 ^ ulpExponent q) : ℚ) - q / 2 ^ ulpExponent q)
        * 2 ^ ulpExponent q := by
    unfold round
    field_simp
  rw [hq, abs_mul, abs_of_pos hu]
  calc |(roundHalfEven (q / 2 ^ ulpExponent q) : ℚ) - q / 2 ^ ulpExponent q| * 2 ^ ulpExponent q
      ≤ 1 / 2 * 2 ^ ulpExponent q := mul_le_mul_of_nonneg_right h hu.le
    _ = 2 ^ ulpExponent q / 2 := by ring

theorem round_nonneg {q : ℚ} (h : 0 ≤ q) : 0 ≤ round q := by
  have hu := two_zpow_pos (ulpExponent q)
  have hdiv : (0 : ℚ) ≤ q / 2 ^ ulpExponent q := div_nonneg h hu.le
  have hint : (0 : ℤ) ≤ roundHalfEven (q / 2 ^ ulpExponent q) :=
    le_trans (Int.floor_nonneg.mpr hdiv) (floor_le_roundHalfEven _)
  exact mul_nonneg (by exact_mod_cast hint) hu.le

/-- Normal numbers: the relative error is at most `2 ^ (-53)`. -/
theorem round_le {q : ℚ} (h : (2 : ℚ) ^ (-1022 : ℤ) ≤ q) :
    round q ≤ q * (1 + 2 ^ (-53 : ℤ)) := by
  have hpos : 0 < q := lt_of_lt_of_le (two_zpow_pos _) h
  have habs : |q| = q := abs_of_pos hpos
  have hlog : (-1022 : ℤ) ≤ Int.log 2 q := by
    have := (Int.zpow_le_iff_le_log (b := 2) (by norm_num) hpos).mp (by exact_mod_cast h)
    exact this
  have hexp : ulpExponent q = Int.log 2 q - 52 := by
    unfold ulpExponent
    rw [habs]
    omega
  have hle : (2 : ℚ) ^ Int.log 2 q ≤ q := by
    exact_mod_cast Int.zpow_log_le_self (b := 2) (by norm_num) hpos
  have hulp : (2 : ℚ) ^ ulpExponent q / 2 = 2 ^ Int.log 2 q * 2 ^ (-53 : ℤ) := by
    rw [hexp, ← zpow_add₀ (by norm_num : (2 : ℚ) ≠ 0), div_eq_mul_inv,
      ← zpow_neg_one, ← zpow_add₀ (by norm_num : (2 : ℚ) ≠ 0)]
    congr 1
    ring
  have herr := (abs_le.mp (abs_round_sub_le q)).2
  rw [hulp] at herr
  have hscale : (2 : ℚ) ^ Int.log 2 q * 2 ^ (-53 : ℤ) ≤ q * 2 ^ (-53 : ℤ) :=
    mul_le_mul_of_nonneg_right hle (two_zpow_pos _).le
  linarith

/-- A double is below the next power of two. -/
theorem lt_two_zpow_ulpExponent {q : ℚ} (h : 0 ≤ q) : q < 2 ^ (ulpExponent q + 53) := by
  have hlog : q < 2 ^ (Int.log 2 q + 1) := by
    exact_mod_cast Int.lt_zpow_succ_log_self (b := 2) (by norm_num) q
  refine lt_of_lt_of_le hlog (zpow_le_zpow_right₀ (by norm_num) ?_)
  unfold ulpExponent
  rw [abs_of_nonneg h]
  omega

theorem ulpExponent_mono {p q : ℚ} (hp : 0 < p) (h : p ≤ q) :
    ulpExponent p ≤ ulpExponent q := by
  unfold ulpExponent
  rw [abs_of_pos hp, abs_of_pos (lt_of_lt_of_le hp h)]
  have := Int.log_mono_right (b := 2) hp h
  omega

/-- Rounding stays at or below a power of two that is at least `2 ^ 53` units. -/
theorem round_le_two_zpow {q : ℚ} (h : 0 ≤ q) : round q ≤ 2 ^ (ulpExponent q + 53) := by
  have hu := two_zpow_pos (ulpExponent q)
  have hlt := lt_two_zpow_ulpExponent h
  rw [add_comm, zpow_add₀ (by norm_num : (2 : ℚ) ≠ 0)] at hlt ⊢
  have hdiv : q / 2 ^ ulpExponent q ≤ ((2 ^ 53 : ℤ) : ℚ) := by
    rw [div_le_iff₀ hu]
    push_cast
    exact_mod_cast hlt.le
  have hint : roundHalfEven (q / 2 ^ ulpExponent q) ≤ 2 ^ 53 := by
    have := roundHalfEven_mono hdiv
    rwa [roundHalfEven_intCast] at this
  refine mul_le_mul_of_nonneg_right ?_ hu.le
  exact_mod_cast hint

/-- A normal number stays at or above its power of two. -/
theorem two_zpow_le_round {q : ℚ} (h : 0 < q) (hnorm : -1074 < ulpExponent q) :
    2 ^ (ulpExponent q + 52) ≤ round q := by
  have hu := two_zpow_pos (ulpExponent q)
  have hexp : Int.log 2 q = ulpExponent q + 52 := by
    unfold ulpExponent at hnorm ⊢
    rw [abs_of_pos h] at hnorm ⊢
    omega
  have hle : (2 : ℚ) ^ (ulpExponent q + 52) ≤ q := by
    rw [← hexp]
    exact_mod_cast Int.zpow_log_le_self (b := 2) (by norm_num) h
  rw [add_comm, zpow_add₀ (by norm_num : (2 : ℚ) ≠ 0)] at hle ⊢
  have hdiv : ((2 ^ 52 : ℤ) : ℚ) ≤ q / 2 ^ ulpExponent q := by
    rw [le_div_iff₀ hu]
    push_cast
    exact_mod_cast hle
  have hint : 2 ^ 52 ≤ roundHalfEven (q / 2 ^ ulpExponent q) := by
    have := roundHalfEven_mono hdiv
    rwa [roundHalfEven_intCast] at this
  refine mul_le_mul_of_nonneg_right ?_ hu.le
  exact_mod_cast hint

/-- **ROUNDING IS MONOTONE.** -/
theorem round_mono {p q : ℚ} (hp : 0 ≤ p) (h : p ≤ q) : round p ≤ round q := by
  rcases hp.eq_or_lt with rfl | hpos
  · rw [round_zero]
    exact round_nonneg h
  rcases (ulpExponent_mono hpos h).eq_or_lt with heq | hlt
  · -- the same unit: both are rounded to integers of it
    unfold round
    rw [heq]
    have hu := two_zpow_pos (ulpExponent q)
    refine mul_le_mul_of_nonneg_right ?_ hu.le
    have hdiv : p / 2 ^ ulpExponent q ≤ q / 2 ^ ulpExponent q :=
      div_le_div_of_nonneg_right h hu.le
    exact_mod_cast roundHalfEven_mono hdiv
  · -- a larger unit: a power of two lies between
    have hnorm : -1074 < ulpExponent q := by
      have : -1074 ≤ ulpExponent p := le_max_right _ _
      omega
    calc round p ≤ 2 ^ (ulpExponent p + 53) := round_le_two_zpow hp
      _ ≤ 2 ^ (ulpExponent q + 52) := zpow_le_zpow_right₀ (by norm_num) (by omega)
      _ ≤ round q := two_zpow_le_round (lt_of_lt_of_le hpos h) hnorm

/-- Rounding does not cross a power of two. -/
theorem round_le_two_pow {q : ℚ} {k : ℕ} (h0 : 0 ≤ q) (h : q < 2 ^ k) : round q ≤ 2 ^ k := by
  rcases h0.eq_or_lt with rfl | hpos
  · rw [round_zero]
    positivity
  have hlog : Int.log 2 q < k :=
    (Int.lt_zpow_iff_log_lt (b := 2) (by norm_num) hpos).mp (by exact_mod_cast h)
  refine (round_le_two_zpow h0).trans ?_
  rw [← zpow_natCast]
  refine zpow_le_zpow_right₀ (by norm_num) ?_
  unfold ulpExponent
  rw [abs_of_pos hpos]
  omega

/-- Nor from above, for a normal number. -/
theorem two_zpow_le_round_of_le {q : ℚ} {k : ℤ} (hk : -1022 < k) (h : (2 : ℚ) ^ k ≤ q) :
    2 ^ k ≤ round q := by
  have hpos : 0 < q := lt_of_lt_of_le (two_zpow_pos k) h
  have hlog : k ≤ Int.log 2 q :=
    (Int.zpow_le_iff_le_log (b := 2) (by norm_num) hpos).mp (by exact_mod_cast h)
  have hexp : ulpExponent q = Int.log 2 q - 52 := by
    unfold ulpExponent
    rw [abs_of_pos hpos]
    omega
  calc (2 : ℚ) ^ k ≤ 2 ^ (ulpExponent q + 52) :=
        zpow_le_zpow_right₀ (by norm_num) (by omega)
    _ ≤ round q := two_zpow_le_round hpos (by omega)

/-- A double from `1` on is a whole number of units of `2 ^ (-52)`. -/
theorem exists_unit_of_round_eq {q : ℚ} (h : round q = q) (h1 : 1 ≤ q) :
    ∃ m : ℤ, q = m * 2 ^ (-52 : ℤ) := by
  have hpos : 0 < q := by linarith
  have hlog : 0 ≤ Int.log 2 q :=
    (Int.zpow_le_iff_le_log (b := 2) (by norm_num) hpos).mp (by simpa using h1)
  obtain ⟨n, hn⟩ : ∃ n : ℕ, ulpExponent q = n + -52 := by
    refine ⟨(ulpExponent q + 52).toNat, ?_⟩
    have : -52 ≤ ulpExponent q := by
      unfold ulpExponent
      rw [abs_of_pos hpos]
      omega
    omega
  refine ⟨roundHalfEven (q / 2 ^ ulpExponent q) * 2 ^ n, ?_⟩
  conv_lhs => rw [← h]
  unfold round
  rw [hn, zpow_add₀ (by norm_num : (2 : ℚ) ≠ 0), zpow_natCast]
  push_cast
  ring

/-- **GAP**: two doubles from `1` on are a unit apart. -/
theorem unit_le_sub {p q : ℚ} (hp : round p = p) (hq : round q = q) (h1 : 1 ≤ p) (h : p < q) :
    2 ^ (-52 : ℤ) ≤ q - p := by
  obtain ⟨m, rfl⟩ := exists_unit_of_round_eq hp h1
  obtain ⟨n, rfl⟩ := exists_unit_of_round_eq hq (by linarith)
  have hu := two_zpow_pos (-52)
  have hmn : m + 1 ≤ n := by
    have : (m : ℚ) < n := lt_of_mul_lt_mul_right h hu.le
    exact_mod_cast this
  have hcast : (m : ℚ) + 1 ≤ n := by exact_mod_cast hmn
  calc (2 : ℚ) ^ (-52 : ℤ) = 1 * 2 ^ (-52 : ℤ) := (one_mul _).symm
    _ ≤ ((n : ℚ) - m) * 2 ^ (-52 : ℤ) := mul_le_mul_of_nonneg_right (by linarith) hu.le
    _ = n * 2 ^ (-52 : ℤ) - m * 2 ^ (-52 : ℤ) := by ring

/-- Below `2 ^ k` the unit is at most `2 ^ (k - 53)`. -/
theorem abs_round_sub_le_of_lt {q : ℚ} {k : ℤ} (hk : -1021 ≤ k) (h : |q| < 2 ^ k) :
    |round q - q| ≤ 2 ^ (k - 53) / 2 := by
  have hu := two_zpow_pos (k - 53)
  rcases eq_or_ne q 0 with rfl | hne
  · rw [round_zero, sub_zero, abs_zero]
    linarith
  have hlog : Int.log 2 |q| < k :=
    (Int.lt_zpow_iff_log_lt (b := 2) (by norm_num) (abs_pos.mpr hne)).mp (by exact_mod_cast h)
  have hexp : ulpExponent q ≤ k - 53 := by
    unfold ulpExponent
    omega
  have hunit : (2 : ℚ) ^ ulpExponent q ≤ 2 ^ (k - 53) := zpow_le_zpow_right₀ (by norm_num) hexp
  have herr := abs_round_sub_le q
  linarith

/-- Below `2 ^ 53` rounding errs by a half at most. -/
theorem abs_round_sub_le_half {q : ℚ} (h : |q| < 2 ^ 53) : |round q - q| ≤ 1 / 2 := by
  have herr := abs_round_sub_le_of_lt (k := 53) (by norm_num) (by exact_mod_cast h)
  rwa [sub_self, zpow_zero] at herr

/-- Integers below `2 ^ 53` are doubles. -/
theorem round_natCast {n : ℕ} (h : n < 2 ^ 53) : round n = n := by
  rcases Nat.eq_zero_or_pos n with rfl | hpos
  · rw [Nat.cast_zero, round_zero]
  have hq : (0 : ℚ) < n := by exact_mod_cast hpos
  have hu := two_zpow_pos (ulpExponent n)
  have hexp : ulpExponent n ≤ 0 := by
    have hlog : Int.log 2 (n : ℚ) < 53 := by
      refine (Int.lt_zpow_iff_log_lt (b := 2) (by norm_num) hq).mp ?_
      exact_mod_cast h
    unfold ulpExponent
    rw [abs_of_pos hq]
    omega
  -- the integer is a whole multiple of its unit
  have hunit : (2 : ℚ) ^ ulpExponent (n : ℚ) * 2 ^ (-ulpExponent (n : ℚ)).toNat = 1 := by
    rw [← zpow_natCast, ← zpow_add₀ (by norm_num : (2 : ℚ) ≠ 0),
      Int.toNat_of_nonneg (by omega), add_neg_cancel, zpow_zero]
  have hk : (n : ℚ) / 2 ^ ulpExponent (n : ℚ)
      = ((n * 2 ^ (-ulpExponent (n : ℚ)).toNat : ℤ) : ℚ) := by
    rw [div_eq_iff hu.ne']
    push_cast
    rw [mul_assoc, mul_comm ((2 : ℚ) ^ (-ulpExponent (n : ℚ)).toNat), hunit, mul_one]
  unfold round
  rw [hk, roundHalfEven_intCast, ← hk]
  exact div_mul_cancel₀ _ hu.ne'

/-- From `1` on a number and its double have the same digits. -/
theorem ulpExponent_two_mul {q : ℚ} (h1 : 1 ≤ q) : ulpExponent (2 * q) = ulpExponent q + 1 := by
  have hpos : 0 < q := by linarith
  have hlog0 : 0 ≤ Int.log 2 q :=
    (Int.zpow_le_iff_le_log (b := 2) (by norm_num) hpos).mp (by simpa using h1)
  have hle : ((2 : ℕ) : ℚ) ^ Int.log 2 q ≤ q := Int.zpow_log_le_self (by norm_num) hpos
  have hlt : q < ((2 : ℕ) : ℚ) ^ (Int.log 2 q + 1) := Int.lt_zpow_succ_log_self (by norm_num) q
  have hlog : Int.log 2 (2 * q) = Int.log 2 q + 1 := by
    refine le_antisymm ?_ ?_
    · refine Int.lt_add_one_iff.mp ((Int.lt_zpow_iff_log_lt (by norm_num) (by linarith)).mp ?_)
      rw [zpow_add_one₀ (by norm_num)]
      push_cast at hlt ⊢
      linarith
    · refine (Int.zpow_le_iff_le_log (by norm_num) (by linarith)).mp ?_
      rw [zpow_add_one₀ (by norm_num)]
      push_cast at hle ⊢
      linarith
  unfold ulpExponent
  rw [abs_of_pos hpos, abs_of_pos (by linarith), hlog]
  omega

/-- **EXACT**: doubling does not round. -/
theorem round_two_mul {q : ℚ} (h1 : 1 ≤ q) : round (2 * q) = 2 * round q := by
  have hu := two_zpow_pos (ulpExponent q)
  have hdiv : 2 * q / (2 ^ ulpExponent q * 2) = q / 2 ^ ulpExponent q := by
    field_simp
  unfold round
  rw [ulpExponent_two_mul h1, zpow_add_one₀ (by norm_num : (2 : ℚ) ≠ 0), hdiv]
  ring

/-- Natural numbers are rounded to natural numbers. -/
theorem exists_round_natCast (n : ℕ) : ∃ k : ℕ, round n = k := by
  rcases Nat.lt_or_ge n (2 ^ 53) with hlt | hge
  · exact ⟨n, round_natCast hlt⟩
  have hq : (2 : ℚ) ^ 53 ≤ n := by exact_mod_cast hge
  have hpos : (0 : ℚ) < n := by linarith [pow_pos (by norm_num : (0 : ℚ) < 2) 53]
  have hlog : 53 ≤ Int.log 2 (n : ℚ) :=
    (Int.zpow_le_iff_le_log (b := 2) (by norm_num) hpos).mp (by exact_mod_cast hge)
  obtain ⟨e, he⟩ : ∃ e : ℕ, ulpExponent n = e := by
    refine ⟨(ulpExponent n).toNat, (Int.toNat_of_nonneg ?_).symm⟩
    unfold ulpExponent
    rw [abs_of_pos hpos]
    omega
  -- a whole number of units, each a whole number
  have hnonneg : 0 ≤ roundHalfEven (n / 2 ^ e) :=
    le_trans (Int.floor_nonneg.mpr (by positivity)) (floor_le_roundHalfEven _)
  obtain ⟨m, hm⟩ := Int.eq_ofNat_of_zero_le hnonneg
  refine ⟨m * 2 ^ e, ?_⟩
  unfold round
  rw [he, zpow_natCast, hm]
  push_cast
  rfl

end Double

/-! ## The type -/

/-- A `double`. -/
inductive Double where
  | finite (q : ℚ)
  | posInf
  | negInf
  | nan
deriving DecidableEq

namespace Double

/-- The first power of two that is no double. -/
def limit : ℚ := 2 ^ 1024

/-- The double nearest to `q`. -/
def ofRat (q : ℚ) : Double :=
  if limit ≤ round q then .posInf
  else if round q ≤ -limit then .negInf
  else .finite (round q)

/-- An infinity of the sign of `q`. -/
def infinity (q : ℚ) : Double := if 0 < q then .posInf else if q < 0 then .negInf else .nan

/-- The sign of a double, as a rational. -/
def sign : Double → ℚ
  | .finite q => q
  | .posInf   => 1
  | .negInf   => -1
  | .nan      => 0

def add : Double → Double → Double
  | .finite p, .finite q => ofRat (p + q)
  | .nan, _ => .nan
  | _, .nan => .nan
  | .posInf, .negInf => .nan
  | .negInf, .posInf => .nan
  | .posInf, _ => .posInf
  | _, .posInf => .posInf
  | .negInf, _ => .negInf
  | _, .negInf => .negInf

def mul : Double → Double → Double
  | .finite p, .finite q => ofRat (p * q)
  | .nan, _ => .nan
  | _, .nan => .nan
  | x, y => infinity (x.sign * y.sign)

/-- Division; by a zero as by the positive one. -/
def div : Double → Double → Double
  | .finite p, .finite q => if q = 0 then infinity p else ofRat (p / q)
  | .nan, _ => .nan
  | _, .nan => .nan
  | .finite _, _ => .finite 0
  | x, .finite q => infinity (x.sign * if q < 0 then -1 else 1)
  | _, _ => .nan

/-- Unary minus. -/
def neg : Double → Double
  | .finite q => .finite (-q)
  | .posInf   => .negInf
  | .negInf   => .posInf
  | .nan      => .nan

/-- `operator-`. -/
def sub (x y : Double) : Double := x.add y.neg

/-- `std::floor`; the floor of a double is a double. -/
def floor : Double → Double
  | .finite q => .finite ⌊q⌋
  | x         => x

/-- `std::round`: halves go away from zero. -/
def roundAway : Double → Double
  | .finite q => .finite (if 0 ≤ q then ⌊q + 1 / 2⌋ else ⌈q - 1 / 2⌉)
  | x         => x

/-- `std::ceil`. -/
def ceil : Double → Double
  | .finite q => .finite ⌈q⌉
  | x         => x

/-- `operator<=`: no comparison with a `nan` holds. -/
def le : Double → Double → Bool
  | .nan, _ => false
  | _, .nan => false
  | .negInf, _ => true
  | _, .posInf => true
  | .finite p, .finite q => p ≤ q
  | _, _ => false

/-- `operator<`. -/
def lt : Double → Double → Bool
  | .nan, _ => false
  | _, .nan => false
  | .finite p, .finite q => p < q
  | .negInf, .negInf => false
  | .negInf, _ => true
  | .posInf, _ => false
  | _, .posInf => true
  | _, .negInf => false

/-- `double` of an integer. -/
def ofInt (n : ℤ) : Double := ofRat n

/-- The conversion to `std::int64_t` truncates; what does not fit becomes the
    least value, as the conversion instruction makes it. -/
def toInt64 : Double → ℤ
  | .finite q =>
      let n := if 0 ≤ q then ⌊q⌋ else ⌈q⌉
      if -2 ^ 63 ≤ n ∧ n < 2 ^ 63 then n else -2 ^ 63
  | _ => -2 ^ 63

/-- The conversion to `std::size_t` truncates; of what does not fit the language leaves
    open what it becomes. -/
def toSize : Double → ℕ
  | .finite q => ⌊q⌋.toNat % 2 ^ 64
  | _         => 0

/-- `std::llround`: halves go away from zero. -/
def llround : Double → ℤ
  | .finite q =>
      let n := if 0 ≤ q then ⌊q + 1 / 2⌋ else ⌈q - 1 / 2⌉
      if -2 ^ 63 ≤ n ∧ n < 2 ^ 63 then n else -2 ^ 63
  | _ => -2 ^ 63

/-! ## Finite arithmetic -/

theorem two_pow_lt_limit {k : ℕ} (h : k < 1024) : (2 : ℚ) ^ k < limit :=
  pow_lt_pow_right₀ (by norm_num) h

theorem limit_pos : 0 < limit := pow_pos (by norm_num) _

/-- Below the limit a rational is rounded to a finite double. -/
theorem ofRat_of_lt {q : ℚ} {k : ℕ} (hk : k < 1024) (h0 : 0 ≤ q) (h : q < 2 ^ k) :
    ofRat q = .finite (round q) := by
  have hle := round_le_two_pow h0 h
  have hpos := round_nonneg h0
  have hlt := two_pow_lt_limit hk
  have hlim := limit_pos
  unfold ofRat
  rw [if_neg (by linarith), if_neg (by linarith)]

/-- Near zero either sign will do. -/
theorem ofRat_of_abs_lt {q : ℚ} (h : |q| < 2 ^ 53) : ofRat q = .finite (round q) := by
  have herr := abs_le.mp (abs_round_sub_le_half h)
  have habs := abs_lt.mp h
  have hlim := two_pow_lt_limit (k := 54) (by norm_num)
  unfold ofRat
  rw [if_neg (by linarith), if_neg (by linarith)]

theorem ofRat_eq {q : ℚ} (h0 : 0 ≤ q) (h : q < 2 ^ 128) : ofRat q = .finite (round q) :=
  ofRat_of_lt (by norm_num) h0 h

theorem ofInt_natCast {n : ℕ} (h : n < 2 ^ 53) : ofInt n = .finite n := by
  have hq : ((n : ℤ) : ℚ) < 2 ^ 128 := by
    have : (n : ℚ) < 2 ^ 53 := by exact_mod_cast h
    push_cast
    linarith
  unfold ofInt
  rw [ofRat_eq (by positivity) hq, Int.cast_natCast, round_natCast h]

/-- A 64-bit count is rounded. -/
theorem ofInt_of_lt {n : ℕ} (h : n < 2 ^ 64) : ofInt n = .finite (round n) := by
  unfold ofInt
  rw [Int.cast_natCast]
  exact ofRat_of_lt (k := 64) (by norm_num) (Nat.cast_nonneg _) (by exact_mod_cast h)

/-- Sums of small integers are exact. -/
theorem add_natCast {m n : ℕ} (h : m + n < 2 ^ 53) :
    add (.finite m) (.finite n) = .finite ((m + n : ℕ) : ℚ) := by
  have := ofInt_natCast h
  unfold ofInt at this
  rw [add, ← this]
  push_cast
  rfl

theorem toInt64_eq {q : ℚ} (h0 : 0 ≤ q) (h : q < 2 ^ 63) : toInt64 (.finite q) = ⌊q⌋ := by
  have hnn : 0 ≤ ⌊q⌋ := Int.floor_nonneg.mpr h0
  have hlt : ⌊q⌋ < 2 ^ 63 := Int.floor_lt.mpr (by exact_mod_cast h)
  simp only [toInt64, if_pos h0]
  rw [if_pos ⟨by linarith, hlt⟩]

theorem toSize_eq {q : ℚ} (h : q < 2 ^ 64) : toSize (.finite q) = ⌊q⌋.toNat := by
  have hlt : ⌊q⌋ < 2 ^ 64 := Int.floor_lt.mpr (by exact_mod_cast h)
  exact Nat.mod_eq_of_lt (by omega)

/-- A product divided by `c`, both rounded, exceeds the exact value by two
    rounding errors at most. -/
theorem round_round_mul_div_le {a b c m : ℚ} (hab : 0 ≤ a * b) (hc : 1 ≤ c) (hm : a * b ≤ m * c)
    (hnorm : (2 : ℚ) ^ (-1022 : ℤ) ≤ m) :
    round (round (a * b) / c) ≤ m * (1 + 2 ^ (-53 : ℤ)) ^ 2 := by
  have hc0 : 0 < c := by linarith
  have hu := two_zpow_pos (-53)
  have hm0 : 0 < m := lt_of_lt_of_le (two_zpow_pos _) hnorm
  have hmc : m ≤ m * c := le_mul_of_one_le_right hm0.le hc
  have hprod : round (a * b) ≤ m * c * (1 + 2 ^ (-53 : ℤ)) :=
    (round_mono hab hm).trans (round_le (hnorm.trans hmc))
  have hdiv : round (a * b) / c ≤ m * (1 + 2 ^ (-53 : ℤ)) := by
    rw [div_le_iff₀ hc0]
    linarith [hprod, mul_right_comm m c (1 + 2 ^ (-53 : ℤ))]
  have hnn : 0 ≤ round (a * b) / c := div_nonneg (round_nonneg hab) hc0.le
  have hnorm' : (2 : ℚ) ^ (-1022 : ℤ) ≤ m * (1 + 2 ^ (-53 : ℤ)) :=
    hnorm.trans (le_mul_of_one_le_right hm0.le (by linarith))
  calc round (round (a * b) / c) ≤ round (m * (1 + 2 ^ (-53 : ℤ))) := round_mono hnn hdiv
    _ ≤ m * (1 + 2 ^ (-53 : ℤ)) * (1 + 2 ^ (-53 : ℤ)) := round_le hnorm'
    _ = m * (1 + 2 ^ (-53 : ℤ)) ^ 2 := by ring

/-- `a * b / c` truncated to an integer, in the range where nothing overflows. -/
theorem toInt64_mul_div {a b c m : ℚ} (hab : 0 ≤ a * b) (hc : 1 ≤ c) (hm : a * b ≤ m * c)
    (hnorm : (2 : ℚ) ^ (-1022 : ℤ) ≤ m) (hbig : m < 2 ^ 62) (hc' : c < 2 ^ 62) :
    0 ≤ toInt64 ((mul (.finite a) (.finite b)).div (.finite c)) ∧
      (toInt64 ((mul (.finite a) (.finite b)).div (.finite c)) : ℚ)
        ≤ m * (1 + 2 ^ (-53 : ℤ)) ^ 2 := by
  have hc0 : 0 < c := by linarith
  have hm0 : 0 < m := lt_of_lt_of_le (two_zpow_pos _) hnorm
  have hlt : a * b < 2 ^ 124 := by
    calc a * b ≤ m * c := hm
      _ < 2 ^ 62 * 2 ^ 62 := mul_lt_mul'' hbig hc' hm0.le hc0.le
      _ = 2 ^ 124 := by norm_num
  have hmul : mul (.finite a) (.finite b) = .finite (round (a * b)) :=
    ofRat_eq hab (hlt.trans (by norm_num))
  have hq := round_round_mul_div_le hab hc hm hnorm
  have hnn : 0 ≤ round (a * b) / c := div_nonneg (round_nonneg hab) hc0.le
  have hsmall : round (a * b) / c < 2 ^ 128 := by
    have : round (a * b) / c ≤ round (a * b) := div_le_self (round_nonneg hab) hc
    have := round_le_two_pow hab hlt
    linarith
  have hdiv : (mul (.finite a) (.finite b)).div (.finite c)
      = .finite (round (round (a * b) / c)) := by
    rw [hmul, div, if_neg hc0.ne', ofRat_eq hnn hsmall]
  have hfit : round (round (a * b) / c) < 2 ^ 63 := by
    refine lt_of_le_of_lt hq ?_
    have : ((1 : ℚ) + 2 ^ (-53 : ℤ)) ^ 2 ≤ 2 := by norm_num
    calc m * (1 + 2 ^ (-53 : ℤ)) ^ 2 ≤ m * 2 := mul_le_mul_of_nonneg_left this hm0.le
      _ < 2 ^ 63 := by linarith
  rw [hdiv, toInt64_eq (round_nonneg hnn) hfit]
  exact ⟨Int.floor_nonneg.mpr (round_nonneg hnn), (Int.floor_le _).trans hq⟩

/-! ## Comparisons -/

/-- The place of a double among the others; of a `nan` any. -/
def key : Double → WithBot (WithTop ℚ)
  | .finite q => ((q : WithTop ℚ) : WithBot (WithTop ℚ))
  | .posInf   => ((⊤ : WithTop ℚ) : WithBot (WithTop ℚ))
  | .negInf   => ⊥
  | .nan      => ⊥

theorem lt_iff_key {x y : Double} (hx : x ≠ .nan) (hy : y ≠ .nan) :
    x.lt y = true ↔ x.key < y.key := by
  have htop : ∀ q : ℚ, (Double.finite q).key < Double.posInf.key := fun q =>
    WithBot.coe_lt_coe.mpr (WithTop.coe_lt_top q)
  cases x <;> cases y <;> simp_all [lt, key]

theorem le_iff_key {x y : Double} (hx : x ≠ .nan) (hy : y ≠ .nan) :
    x.le y = true ↔ x.key ≤ y.key := by
  cases x <;> cases y <;> simp_all [le, key]

theorem key_injOn {x y : Double} (hx : x ≠ .nan) (hy : y ≠ .nan) (h : x.key = y.key) : x = y := by
  cases x <;> cases y <;> simp_all [key]

/-- Positive doubles are finite or the infinity. -/
theorem pos_cases {x : Double} (h : (Double.finite 0).lt x = true) :
    (∃ q, x = .finite q ∧ 0 < q) ∨ x = .posInf := by
  cases x with
  | finite q => exact .inl ⟨q, rfl, by simpa [lt] using h⟩
  | posInf => exact .inr rfl
  | negInf => exact nomatch h
  | nan => exact nomatch h

theorem le_of_not_lt {x y : Double} (hx : (Double.finite 0).lt x = true)
    (hy : (Double.finite 0).lt y = true) (h : y.lt x = false) : x.le y = true := by
  rcases pos_cases hx with ⟨p, rfl, hp⟩ | rfl <;> rcases pos_cases hy with ⟨q, rfl, hq⟩ | rfl
  · simpa [lt, le] using h
  · rfl
  · exact nomatch h
  · rfl

theorem ofRat_mono {p q : ℚ} (hp : 0 ≤ p) (h : p ≤ q) : (ofRat p).le (ofRat q) = true := by
  have hr := round_mono hp h
  have hp' := round_nonneg hp
  have hlim := limit_pos
  unfold ofRat
  rw [if_neg (by linarith : ¬round p ≤ -limit), if_neg (by linarith : ¬round q ≤ -limit)]
  by_cases hq : limit ≤ round q
  · rw [if_pos hq]
    split <;> rfl
  · rw [if_neg hq, if_neg (by linarith)]
    simpa [le] using hr

/-- What is at least a positive double is positive. -/
theorem pos_of_le {x y : Double} (hx : (Double.finite 0).lt x = true) (h : x.le y = true) :
    (Double.finite 0).lt y = true := by
  rcases pos_cases hx with ⟨p, rfl, hp⟩ | rfl <;> cases y <;> simp_all [lt, le]
  exact lt_of_lt_of_le hp h

/-- A sum of positive doubles is a number. -/
theorem add_le_posInf {x y : Double} (hx : (Double.finite 0).lt x = true)
    (hy : (Double.finite 0).lt y = true) : (x.add y).le .posInf = true := by
  rcases pos_cases hx with ⟨p, rfl, hp⟩ | rfl
  · rcases pos_cases hy with ⟨q, rfl, hq⟩ | rfl
    · have hr := round_nonneg (add_nonneg hp.le hq.le)
      have hlim := limit_pos
      show (ofRat (p + q)).le .posInf = true
      unfold ofRat
      rw [if_neg (by linarith : ¬round (p + q) ≤ -limit)]
      split <;> rfl
    · rfl
  · rcases pos_cases hy with ⟨q, rfl, -⟩ | rfl <;> rfl

/-- Addition of positive doubles is monotone. -/
theorem add_le_add {x x' y y' : Double} (hx : (Double.finite 0).lt x = true)
    (hy : (Double.finite 0).lt y = true) (hxx : x.le x' = true) (hyy : y.le y' = true) :
    (x.add y).le (x'.add y') = true := by
  have hsum := add_le_posInf hx hy
  rcases pos_cases (pos_of_le hx hxx) with ⟨p', rfl, -⟩ | rfl
  · rcases pos_cases (pos_of_le hy hyy) with ⟨q', rfl, -⟩ | rfl
    · rcases pos_cases hx with ⟨p, rfl, hp⟩ | rfl
      · rcases pos_cases hy with ⟨q, rfl, hq⟩ | rfl
        · simp only [le, decide_eq_true_eq] at hxx hyy
          exact ofRat_mono (by linarith) (by linarith)
        · exact nomatch hyy
      · exact nomatch hxx
    · exact hsum
  · rcases pos_cases (pos_of_le hy hyy) with ⟨q', rfl, -⟩ | rfl
    · exact hsum
    · exact hsum

end Double
