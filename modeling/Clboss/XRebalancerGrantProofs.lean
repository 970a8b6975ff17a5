import Clboss.XRebalancerCycleProofs

/-! # XRebalancer — the grant, and what is left of it

    A side of a peer is credited as if it had earned the grant rate on a volume
    that it has not forwarded yet.  What it forwards replaces the credit one for one,
    so its rate moves from the grant to its own.

    The formula is written once, over numbers with the operations that it uses; with
    `double` it is the code (`joined_eq`), and with exact numbers it is the AVERAGE of
    the two rates by volume.  One thing it does not average: what a side spent before
    it forwarded anything.  That has no rate of its own, and is taken off the credit. -/

namespace Blend

/-! ## The formula, over any numbers -/

/-- Numbers, and the constants of the formula among them. -/
structure Arith (K : Type) where
  lt      : K → K → Bool
  add     : K → K → K
  sub     : K → K → K
  mul     : K → K → K
  div     : K → K → K
  zero    : K
  hundred : K
  million : K

section Code

variable {K : Type} (A : Arith K)

/-- `w`: the volume the grant is assumed earned on. -/
def weight (grantWeight cm : K) : K := A.div (A.mul cm grantWeight) A.hundred

/-- `g`: what is left of it. -/
def credit (grantPpm grantWeight f cm : K) : K :=
  if A.lt A.zero grantPpm then
    if A.lt f (weight A grantWeight cm) then A.sub (weight A grantWeight cm) f else A.zero
  else A.zero

/-- `joined`. -/
def joined (grantPpm grantWeight gain e x f cm : K) : Option K :=
  if A.lt A.zero (A.add f (credit A grantPpm grantWeight f cm)) then
    some (A.mul
      (A.div
        (A.mul
          (A.add (A.sub e x)
            (A.div (A.mul (credit A grantPpm grantWeight f cm) grantPpm) A.million))
          A.million)
        (A.add f (credit A grantPpm grantWeight f cm)))
      gain)
  else none

end Code

/-- The numbers of the code. -/
def doubles : Arith Double where
  lt      := Double.lt
  add     := Double.add
  sub     := Double.sub
  mul     := Double.mul
  div     := Double.div
  zero    := .finite 0
  hundred := .finite 100
  million := .finite 1000000

/-- **THE CODE** is this formula with `double`. -/
theorem joined_eq (k : XRebalancer.Knobs) (e x f cm : Double) :
    XRebalancer.joined k e x f cm
      = joined doubles k.grantPpm k.grantWeight k.gain e x f cm := rfl

/-! ## Exact numbers -/

/-- Exact rationals. -/
def exact : Arith ℚ where
  lt a b  := decide (a < b)
  add     := (· + ·)
  sub     := (· - ·)
  mul     := (· * ·)
  div     := (· / ·)
  zero    := 0
  hundred := 100
  million := 1000000

/-- The settings, as `handle_option` keeps them. -/
structure Grant where
  ppm        : ℚ
  ppm_nn     : 0 ≤ ppm
  weight     : ℚ
  weight_pos : 0 < weight

/-- A side of a peer: sums of its rows, and its capacity. -/
structure Side where
  earnings     : ℚ
  expenditures : ℚ
  forwarded    : ℚ
  capacity     : ℚ
  forwarded_nn : 0 ≤ forwarded
  capacity_nn  : 0 ≤ capacity

/-- The rate of a side, at gain 1. -/
def rate (s : Grant) (p : Side) : Option ℚ :=
  joined exact s.ppm s.weight 1 p.earnings p.expenditures p.forwarded p.capacity

/-- The credit that is left. -/
def Side.credit (s : Grant) (p : Side) : ℚ := Blend.credit exact s.ppm s.weight p.forwarded p.capacity

/-- The weight of the grant. -/
def Side.weight (s : Grant) (p : Side) : ℚ := p.capacity * s.weight / 100

/-- The measured rate; without forwards there is nothing to measure. -/
def Side.measured (p : Side) : ℚ := (p.earnings - p.expenditures) * 1000000 / p.forwarded

/-- The numbers of a side but for what it earned and spent. -/
def Side.with (p : Side) (e x : ℚ) : Side := { p with earnings := e, expenditures := x }

variable {s : Grant} {p : Side}

theorem credit_eq (s : Grant) (p : Side) :
    p.credit s = if 0 < s.ppm then max 0 (p.weight s - p.forwarded) else 0 := by
  show (if decide (0 < s.ppm) = true then
      if decide (p.forwarded < p.weight s) = true then p.weight s - p.forwarded else 0 else 0) = _
  by_cases hppm : 0 < s.ppm
  · rw [if_pos hppm, if_pos (decide_eq_true hppm)]
    by_cases hlt : p.forwarded < p.weight s
    · rw [if_pos (decide_eq_true hlt), max_eq_right (sub_nonneg.mpr hlt.le)]
    · rw [if_neg (by simpa using hlt), max_eq_left (sub_nonpos.mpr (not_lt.mp hlt))]
  · rw [if_neg hppm, if_neg (by simpa using hppm)]

theorem credit_nonneg (s : Grant) (p : Side) : 0 ≤ p.credit s := by
  rw [credit_eq]
  split
  · exact le_max_left _ _
  · exact le_rfl

/-- **SPEC** of the rate. -/
theorem rate_eq (s : Grant) (p : Side) :
    rate s p = if 0 < p.forwarded + p.credit s then
        some (((p.earnings - p.expenditures) * 1000000 + p.credit s * s.ppm)
          / (p.forwarded + p.credit s))
      else none := by
  have hrate : rate s p = if decide (0 < p.forwarded + p.credit s) = true then
      some ((p.earnings - p.expenditures + p.credit s * s.ppm / 1000000) * 1000000
        / (p.forwarded + p.credit s) * 1)
    else none := rfl
  rw [hrate]
  by_cases hpos : 0 < p.forwarded + p.credit s
  · rw [if_pos hpos, if_pos (decide_eq_true hpos), mul_one, add_mul,
      div_mul_cancel₀ _ (by norm_num : (1000000 : ℚ) ≠ 0)]
  · rw [if_neg hpos, if_neg (by simpa using hpos)]

/-- A rate has a positive volume under it. -/
theorem rate_cases {r : ℚ} (h : rate s p = some r) :
    0 < p.forwarded + p.credit s
      ∧ r * (p.forwarded + p.credit s)
        = (p.earnings - p.expenditures) * 1000000 + p.credit s * s.ppm := by
  rw [rate_eq] at h
  split at h
  · rename_i hpos
    cases h
    exact ⟨hpos, div_mul_cancel₀ _ hpos.ne'⟩
  · cases h

/-! ## Averages -/

/-- An average by volume lies between the two. -/
theorem average_between {a b f g : ℚ} (hf : 0 < f) (hg : 0 ≤ g) :
    min a b ≤ (f * a + g * b) / (f + g) ∧ (f * a + g * b) / (f + g) ≤ max a b := by
  have hfg : 0 < f + g := by linarith
  constructor
  · rw [le_div_iff₀ hfg]
    have ha := mul_le_mul_of_nonneg_left (min_le_left a b) hf.le
    have hb := mul_le_mul_of_nonneg_left (min_le_right a b) hg
    linarith
  · rw [div_le_iff₀ hfg]
    have ha := mul_le_mul_of_nonneg_left (le_max_left a b) hf.le
    have hb := mul_le_mul_of_nonneg_left (le_max_right a b) hg
    linarith

/-- What a side has earned, by its measured rate. -/
theorem forwarded_mul_measured (p : Side) (h : 0 < p.forwarded) :
    p.forwarded * p.measured = (p.earnings - p.expenditures) * 1000000 :=
  mul_div_cancel₀ _ h.ne'

/-- **THE AVERAGE**, of a side that has forwarded something. -/
theorem rate_average (hf : 0 < p.forwarded) :
    rate s p = some ((p.forwarded * p.measured + p.credit s * s.ppm)
      / (p.forwarded + p.credit s)) := by
  have hpos : 0 < p.forwarded + p.credit s := by
    have := credit_nonneg s p
    linarith
  rw [rate_eq, if_pos hpos, forwarded_mul_measured p hf]

/-! ## The blend -/

/-- What the blend promises. -/
structure Blended (s : Grant) (p : Side) : Prop where
  /-- there is a rate just where there is volume to divide by -/
  has_iff  : (rate s p).isSome = true ↔ 0 < p.forwarded + p.credit s
  /-- with forwards, it is the average of the two rates and lies between them -/
  average  : ∀ r, rate s p = some r → 0 < p.forwarded →
    r = (p.forwarded * p.measured + p.credit s * s.ppm) / (p.forwarded + p.credit s)
      ∧ min p.measured s.ppm ≤ r ∧ r ≤ max p.measured s.ppm
  /-- without, what was earned and spent moves it off the grant, by volume of the credit -/
  spent    : ∀ r, rate s p = some r → p.forwarded = 0 →
    r = s.ppm + (p.earnings - p.expenditures) * 1000000 / p.credit s
  fresh    : ∀ r, rate s p = some r → p.earnings = 0 → p.expenditures = 0 → p.forwarded = 0 →
    r = s.ppm
  own      : p.weight s ≤ p.forwarded → 0 < p.forwarded → rate s p = some p.measured
  monotone : ∀ r e x, rate s p = some r → p.earnings ≤ e → x ≤ p.expenditures →
    ∃ r', rate s (p.with e x) = some r' ∧ r ≤ r'

/-- **HEADLINE**: the blend of every side under every grant. -/
theorem rate_blended (s : Grant) (p : Side) : Blended s p := by
  have hspent : ∀ r, rate s p = some r → p.forwarded = 0 →
      r = s.ppm + (p.earnings - p.expenditures) * 1000000 / p.credit s := by
    intro r hr hf
    obtain ⟨hpos, hmul⟩ := rate_cases hr
    rw [hf, zero_add] at hpos hmul
    rw [← sub_eq_iff_eq_add', eq_div_iff hpos.ne', sub_mul, hmul]
    ring
  constructor
  · rw [rate_eq]
    by_cases hpos : 0 < p.forwarded + p.credit s
    · rw [if_pos hpos]
      exact iff_of_true rfl hpos
    · rw [if_neg hpos]
      exact iff_of_false Bool.false_ne_true hpos
  · intro r hr hf
    rw [rate_average hf] at hr
    have hbetween := average_between (a := p.measured) (b := s.ppm) hf (credit_nonneg s p)
    cases hr
    exact ⟨rfl, hbetween⟩
  · exact hspent
  · intro r hr he hx hf
    rw [hspent r hr hf, he, hx, sub_self, zero_mul, zero_div, add_zero]
  · intro hweight hf
    have hcredit : p.credit s = 0 := by
      rw [credit_eq]
      split
      · exact max_eq_left (sub_nonpos.mpr hweight)
      · rfl
    rw [rate_average hf, hcredit, zero_mul, add_zero, add_zero, mul_div_cancel_left₀ _ hf.ne']
  · intro r e x hr he hx
    obtain ⟨hpos, hmul⟩ := rate_cases hr
    have hcredit : (p.with e x).credit s = p.credit s := rfl
    have hforwarded : (p.with e x).forwarded = p.forwarded := rfl
    refine ⟨_, by rw [rate_eq, hcredit, hforwarded, if_pos hpos], ?_⟩
    rw [le_div_iff₀ hpos, hmul]
    have hnet : p.earnings - p.expenditures ≤ e - x := by linarith
    have hscaled := mul_le_mul_of_nonneg_right hnet (by norm_num : (0 : ℚ) ≤ 1000000)
    exact add_le_add hscaled le_rfl

/-! ## Spent before anything was forwarded -/

theorem hundred_nonneg : (0 : ℚ) ≤ 100 := by norm_num

theorem quarter_pos : (0 : ℚ) < 25 := by norm_num

/-- A grant of 100 ppm on a quarter of the capacity. -/
def quarterGrant : Grant := ⟨100, hundred_nonneg, 25, quarter_pos⟩

theorem nothing_nonneg : (0 : ℚ) ≤ 0 := le_rfl

theorem capacity_nonneg : (0 : ℚ) ≤ 4000000000 := by norm_num

/-- Refilling the peer cost a satoshi, and nothing was forwarded since. -/
def refilled : Side := ⟨0, 1000, 0, 4000000000, nothing_nonneg, capacity_nonneg⟩

/-- **COUNTEREXAMPLE**: whatever is taken for the measured rate, the average over no volume is the
    grant, and the rate is not. -/
theorem refilled_below_grant : rate quarterGrant refilled = some 99
    ∧ ∀ measured : ℚ, (99 : ℚ) ≠ (refilled.forwarded * measured
        + refilled.credit quarterGrant * quarterGrant.ppm)
      / (refilled.forwarded + refilled.credit quarterGrant) := by
  have hcredit : refilled.credit quarterGrant = 1000000000 := by decide +kernel
  have hforwarded : refilled.forwarded = 0 := rfl
  have hppm : quarterGrant.ppm = 100 := rfl
  refine ⟨by decide +kernel, fun measured => ?_⟩
  rw [hcredit, hforwarded, hppm]
  norm_num

end Blend
