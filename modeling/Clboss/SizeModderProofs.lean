import Clboss.AmountArithProofs
import Mathlib.Analysis.SpecialFunctions.Log.Basic

/-! # `Boss::Mod::FeeModderBySize` — the multiplier of our size

    The competitors for a peer are counted: those of less capacity than ours,
    those of more, and all of them.  The share of the first two that is worse is
    our POSITION, and a curve of two branches makes a multiplier of it.

    The formula is written once, over numbers with the operations it uses.  With
    `double` it is the code; with exact reals, where a division by zero is
    `undefined`, it can be judged.  Who is as large as we are is on neither
    side, so if ALL competitors are, the position is `0 / 0`
    (`evaluated_iff_apart`). -/

namespace FeeModderBySize

open Ln

/-! ## The formula, over any numbers -/

/-- Numbers, and the functions of the formula on them. -/
structure Arith (K : Type) where
  lt    : K → K → Bool
  add   : K → K → K
  sub   : K → K → K
  mul   : K → K → K
  div   : K → K → K
  sqrt  : K → K
  log   : K → K
  ofNat : ℕ → K
  half  : K

section Code

variable {K : Type} (A : Arith K)

/-- Our position: a number from 0 to 1, says the code. -/
def position (worse better : ℕ) : K := A.div (A.ofNat worse) (A.ofNat (worse + better))

/-- `calculate_multiplier`; `none` if the assertion fails. -/
def calculateMultiplier (worse better total : ℕ) : Option K :=
  if worse + better ≤ total then
    if total = 0 then some (A.ofNat 1)
    else
      let pos := position A worse better
      let x :=
        if worse < better then
          let pos := A.mul pos (A.ofNat 2)
          let base := A.sqrt A.half
          A.add (A.sub base (A.mul pos base)) (A.mul pos (A.ofNat 1))
        else
          let logInvTotal := A.log (A.div (A.ofNat 1) (A.ofNat total))
          let lim := A.add (A.ofNat 16) logInvTotal
          let lim := if A.lt lim (A.ofNat 2) then A.ofNat 2 else lim
          let pos := A.sub (A.mul pos (A.ofNat 2)) (A.ofNat 1)
          let base := A.ofNat 1
          A.add (A.sub base (A.mul pos base)) (A.mul pos (A.sqrt lim))
      some (A.mul x x)
  else none

end Code

/-! ## Counting the competitors -/

structure Counts where
  worse  : ℕ
  better : ℕ
  total  : ℕ
deriving DecidableEq

/-- One round of the loop of `compute_multiplier`. -/
def Counts.judge (myCapacity : Amount) (n : Counts) (c : Amount) : Counts :=
  if c.lt myCapacity then { n with worse := n.worse + 1, total := n.total + 1 }
  else if myCapacity.lt c then { n with better := n.better + 1, total := n.total + 1 }
  else { n with total := n.total + 1 }

/-- The loop. -/
def counts (caps : List Amount) (myCapacity : Amount) : Counts :=
  caps.foldl (Counts.judge myCapacity) ⟨0, 0, 0⟩

/-- What `compute_multiplier` makes of the capacities. -/
def multiplier {K : Type} (A : Arith K) (caps : List Amount) (myCapacity : Amount) : Option K :=
  calculateMultiplier A (counts caps myCapacity).worse (counts caps myCapacity).better
    (counts caps myCapacity).total

/-- The numbers of the code. -/
def doubles (sqrt log : Double → Double) : Arith Double where
  lt      := Double.lt
  add     := Double.add
  sub     := Double.sub
  mul     := Double.mul
  div     := Double.div
  sqrt    := sqrt
  log     := log
  ofNat n := Double.ofInt n
  half    := .finite (1 / 2)

/-- Between nobody and nobody there is no number. -/
example (sqrt log : Double → Double) : position (doubles sqrt log) 0 0 = .nan := by
  show (Double.ofInt 0).div (Double.ofInt 0) = .nan
  decide +kernel

/-! ## Exact numbers -/

/-- A real number, or the result of a division by zero and what is computed with it. -/
inductive Exact where
  | real (x : ℝ)
  | undefined

namespace Exact

def lift (f : ℝ → ℝ) : Exact → Exact
  | .real x    => .real (f x)
  | .undefined => .undefined

def lift₂ (f : ℝ → ℝ → ℝ) : Exact → Exact → Exact
  | .real x, .real y => .real (f x y)
  | _, _             => .undefined

noncomputable def div : Exact → Exact → Exact
  | .real x, .real y => if y = 0 then .undefined else .real (x / y)
  | _, _             => .undefined

noncomputable def lt : Exact → Exact → Bool
  | .real x, .real y => decide (x < y)
  | _, _             => false

end Exact

/-- Exact reals. -/
noncomputable def exact : Arith Exact where
  lt      := Exact.lt
  add     := Exact.lift₂ (· + ·)
  sub     := Exact.lift₂ (· - ·)
  mul     := Exact.lift₂ (· * ·)
  div     := Exact.div
  sqrt    := Exact.lift Real.sqrt
  log     := Exact.lift Real.log
  ofNat n := .real n
  half    := .real (1 / 2)

/-! ## The curve -/

/-- The limit for so many competitors. -/
noncomputable def limit (total : ℕ) : ℝ := max 2 (16 + Real.log (1 / total))

/-- The curve over the positions, before it is squared. -/
noncomputable def level (lim p : ℝ) : ℝ :=
  if p < 1 / 2 then √(1 / 2) - p * 2 * √(1 / 2) + p * 2
  else 1 - (p * 2 - 1) + (p * 2 - 1) * √lim

theorem sqrt_half_le_one : √(1 / 2) ≤ 1 := Real.sqrt_le_one.mpr (by norm_num)

theorem one_le_sqrt_limit (total : ℕ) : 1 ≤ √(limit total) := by
  rw [Real.one_le_sqrt]
  exact le_trans (by norm_num) (le_max_left _ _)

/-- The lower branch ends where the upper begins, and neither falls. -/
theorem level_mono {lim p q : ℝ} (hlim : 1 ≤ √lim) (h : p ≤ q) : level lim p ≤ level lim q := by
  have hhalf := sqrt_half_le_one
  unfold level
  by_cases hp : p < 1 / 2
  · rw [if_pos hp]
    by_cases hq : q < 1 / 2
    · rw [if_pos hq]
      have := mul_le_mul_of_nonneg_right h (sub_nonneg.mpr hhalf)
      linarith
    · -- across the middle, where both branches give 1
      rw [if_neg hq]
      have hlow := mul_le_mul_of_nonneg_right hp.le (sub_nonneg.mpr hhalf)
      have hhigh := mul_nonneg (show 0 ≤ q * 2 - 1 by linarith) (sub_nonneg.mpr hlim)
      linarith
  · rw [if_neg hp, if_neg (by linarith)]
    have := mul_le_mul_of_nonneg_right h (sub_nonneg.mpr hlim)
    linarith

theorem level_nonneg {lim p : ℝ} (hlim : 1 ≤ √lim) (h : 0 ≤ p) : 0 ≤ level lim p := by
  have hzero : 0 ≤ level lim 0 := by
    unfold level
    rw [if_pos (by norm_num)]
    have := Real.sqrt_nonneg (1 / 2)
    linarith
  exact hzero.trans (level_mono hlim h)

/-! ## What is computed -/

/-- Our position, where it has one. -/
noncomputable def share (worse better : ℕ) : ℝ := worse / ((worse + better : ℕ) : ℝ)

theorem position_exact {worse better : ℕ} (h : worse + better ≠ 0) :
    position exact worse better = .real (share worse better) :=
  if_neg (Nat.cast_ne_zero.mpr h)

theorem position_undefined {worse better : ℕ} (h : worse + better = 0) :
    position exact worse better = .undefined := by
  show (if ((worse + better : ℕ) : ℝ) = 0 then Exact.undefined else _) = _
  rw [h, Nat.cast_zero, if_pos rfl]

theorem share_nonneg (worse better : ℕ) : 0 ≤ share worse better :=
  div_nonneg (Nat.cast_nonneg _) (Nat.cast_nonneg _)

theorem share_le_one (worse better : ℕ) : share worse better ≤ 1 :=
  div_le_one_of_le₀ (by exact_mod_cast Nat.le_add_right _ _) (Nat.cast_nonneg _)

/-- The side of the middle. -/
theorem share_lt_half {worse better : ℕ} (h : worse + better ≠ 0) :
    share worse better < 1 / 2 ↔ worse < better := by
  have hpos : (0 : ℝ) < ((worse + better : ℕ) : ℝ) := by
    exact_mod_cast Nat.pos_of_ne_zero h
  unfold share
  rw [div_lt_iff₀ hpos]
  constructor
  · intro hlt
    have : (worse : ℝ) < better := by
      push_cast at hlt
      linarith
    exact_mod_cast this
  · intro hlt
    have : (worse : ℝ) < better := by exact_mod_cast hlt
    push_cast
    linarith

/-- More that are worse and fewer that are better do not lower our position. -/
theorem share_mono {worse better worse' better' : ℕ} (h : worse + better ≠ 0)
    (h' : worse' + better' ≠ 0) (hworse : worse ≤ worse') (hbetter : better' ≤ better) :
    share worse better ≤ share worse' better' := by
  have hpos : (0 : ℝ) < ((worse + better : ℕ) : ℝ) := by exact_mod_cast Nat.pos_of_ne_zero h
  have hpos' : (0 : ℝ) < ((worse' + better' : ℕ) : ℝ) := by exact_mod_cast Nat.pos_of_ne_zero h'
  unfold share
  rw [div_le_div_iff₀ hpos hpos']
  have hcross : worse * (worse' + better') ≤ worse' * (worse + better) := by
    have := Nat.mul_le_mul hworse hbetter
    calc worse * (worse' + better') = worse * worse' + worse * better' := by ring
      _ ≤ worse * worse' + worse' * better := by omega
      _ = worse' * (worse + better) := by ring
  exact_mod_cast hcross

theorem real_max_limit (total : ℕ) (h : total ≠ 0) :
    (if exact.lt (exact.add (exact.ofNat 16) (exact.log (exact.div (exact.ofNat 1)
          (exact.ofNat total)))) (exact.ofNat 2) then exact.ofNat 2
      else exact.add (exact.ofNat 16) (exact.log (exact.div (exact.ofNat 1) (exact.ofNat total))))
      = .real (limit total) := by
  have hlog : exact.add (exact.ofNat 16) (exact.log (exact.div (exact.ofNat 1)
      (exact.ofNat total))) = .real (16 + Real.log (1 / total)) := by
    have hdiv : exact.div (exact.ofNat 1) (exact.ofNat total) = .real (1 / total) := by
      show (if (total : ℝ) = 0 then Exact.undefined else .real (((1 : ℕ) : ℝ) / total)) = _
      rw [if_neg (Nat.cast_ne_zero.mpr h), Nat.cast_one]
    rw [hdiv]
    show Exact.real (((16 : ℕ) : ℝ) + Real.log (1 / total)) = _
    norm_num
  rw [hlog]
  show (if decide (16 + Real.log (1 / total) < ((2 : ℕ) : ℝ)) = true then Exact.real ((2 : ℕ) : ℝ)
    else .real (16 + Real.log (1 / total))) = _
  unfold limit
  rw [Nat.cast_ofNat]
  by_cases hlt : 16 + Real.log (1 / total) < 2
  · rw [if_pos (decide_eq_true hlt), max_eq_left hlt.le]
  · rw [if_neg (by simpa using hlt), max_eq_right (not_lt.mp hlt)]

/-- **SPEC**: the curve at our position, squared. -/
theorem calculateMultiplier_exact {worse better total : ℕ} (hle : worse + better ≤ total)
    (h : worse + better ≠ 0) :
    calculateMultiplier exact worse better total
      = some (.real (level (limit total) (share worse better) ^ 2)) := by
  have htotal : total ≠ 0 := by omega
  unfold calculateMultiplier
  rw [if_pos hle, if_neg htotal]
  simp only
  rw [position_exact h, real_max_limit total htotal]
  unfold level
  by_cases hlt : worse < better
  · rw [if_pos hlt, if_pos ((share_lt_half h).mpr hlt), sq]
    simp [exact, Exact.lift, Exact.lift₂]
  · rw [if_neg hlt, if_neg (fun hs => hlt ((share_lt_half h).mp hs)), sq]
    simp [exact, Exact.lift, Exact.lift₂]

/-- With nobody on either side there is no multiplier. -/
theorem calculateMultiplier_undefined {total : ℕ} (h : total ≠ 0) :
    calculateMultiplier exact 0 0 total = some .undefined := by
  unfold calculateMultiplier
  rw [if_pos (Nat.zero_le _), if_neg h, position_undefined rfl]
  rfl

/-! ## Counts -/

theorem foldl_judge (myCapacity : Amount) (caps : List Amount) (n : Counts) :
    caps.foldl (Counts.judge myCapacity) n
      = ⟨n.worse + caps.countP (·.lt myCapacity), n.better + caps.countP (myCapacity.lt ·),
          n.total + caps.length⟩ := by
  induction caps generalizing n with
  | nil => rfl
  | cons c caps ih =>
      rw [List.foldl_cons, ih, List.countP_cons, List.countP_cons, List.length_cons]
      unfold Counts.judge
      by_cases hlt : c.lt myCapacity = true
      · have hgt : ¬ myCapacity.lt c = true := by
          rw [Amount.lt_iff] at hlt ⊢
          omega
        rw [if_pos hlt, if_pos hlt, if_neg hgt]
        congr 1
        · simp only
          omega
        · simp only
          omega
      · rw [if_neg hlt, if_neg hlt]
        by_cases hgt : myCapacity.lt c = true
        · rw [if_pos hgt, if_pos hgt]
          congr 1
          · simp only
            omega
          · simp only
            omega
        · rw [if_neg hgt, if_neg hgt]
          congr 1
          simp only
          omega

theorem counts_eq (caps : List Amount) (myCapacity : Amount) :
    counts caps myCapacity
      = ⟨caps.countP (·.lt myCapacity), caps.countP (myCapacity.lt ·), caps.length⟩ := by
  unfold counts
  rw [foldl_judge]
  simp only [Nat.zero_add]

/-- Nobody is on both sides. -/
theorem worse_add_better_le (caps : List Amount) (myCapacity : Amount) :
    (counts caps myCapacity).worse + (counts caps myCapacity).better
      ≤ (counts caps myCapacity).total := by
  rw [counts_eq]
  show caps.countP _ + caps.countP _ ≤ caps.length
  induction caps with
  | nil => exact le_rfl
  | cons c caps ih =>
      rw [List.countP_cons, List.countP_cons, List.length_cons]
      have : ¬ (c.lt myCapacity = true ∧ myCapacity.lt c = true) := by
        rw [Amount.lt_iff, Amount.lt_iff]
        omega
      split <;> split <;> simp_all <;> omega

/-- Somebody is on a side unless all are as large as we are. -/
theorem worse_add_better_eq_zero (caps : List Amount) (myCapacity : Amount) :
    (counts caps myCapacity).worse + (counts caps myCapacity).better = 0
      ↔ ∀ c ∈ caps, c = myCapacity := by
  rw [counts_eq]
  show caps.countP _ + caps.countP _ = 0 ↔ _
  rw [Nat.add_eq_zero_iff, List.countP_eq_zero, List.countP_eq_zero]
  constructor
  · rintro ⟨hworse, hbetter⟩ c hc
    have h₁ := hworse c hc
    have h₂ := hbetter c hc
    rw [Amount.lt_iff] at h₁ h₂
    have : c.v = myCapacity.v := UInt64.toNat_inj.mp (by omega)
    cases c
    cases myCapacity
    exact congrArg Amount.mk this
  · intro h
    refine ⟨fun c hc => ?_, fun c hc => ?_⟩
    · rw [h c hc, Amount.lt_iff]
      omega
    · rw [h c hc, Amount.lt_iff]
      omega

/-- A larger capacity leaves more behind, and fewer before. -/
theorem counts_mono (caps : List Amount) {own own' : Amount} (h : own.le own' = true) :
    (counts caps own).worse ≤ (counts caps own').worse
      ∧ (counts caps own').better ≤ (counts caps own).better := by
  rw [Amount.le_iff] at h
  rw [counts_eq, counts_eq]
  refine ⟨List.countP_mono_left (fun c _ hc => ?_), List.countP_mono_left (fun c _ hc => ?_)⟩
  · rw [Amount.lt_iff] at hc ⊢
    omega
  · rw [Amount.lt_iff] at hc ⊢
    omega

/-! ## All competitors -/

/-- There is nobody to compare with, or somebody that is not as large as we are. -/
def Apart (caps : List Amount) (myCapacity : Amount) : Prop :=
  caps = [] ∨ ∃ c ∈ caps, c ≠ myCapacity

/-- The multiplier is computed as the code means it to be. -/
structure Evaluated (caps : List Amount) (myCapacity : Amount) : Prop where
  asserted : (counts caps myCapacity).worse + (counts caps myCapacity).better
    ≤ (counts caps myCapacity).total
  divides  : (counts caps myCapacity).total ≠ 0 →
    (counts caps myCapacity).worse + (counts caps myCapacity).better ≠ 0
  between  : (counts caps myCapacity).total ≠ 0 → ∃ p : ℝ,
    position exact (counts caps myCapacity).worse (counts caps myCapacity).better = .real p
      ∧ 0 ≤ p ∧ p ≤ 1
  defined  : ∃ m : ℝ, multiplier exact caps myCapacity = some (.real m)

theorem total_eq_zero (caps : List Amount) (myCapacity : Amount) :
    (counts caps myCapacity).total = 0 ↔ caps = [] := by
  rw [counts_eq]
  exact List.length_eq_zero_iff

theorem apart_iff (caps : List Amount) (myCapacity : Amount) :
    Apart caps myCapacity ↔ ((counts caps myCapacity).total ≠ 0 →
      (counts caps myCapacity).worse + (counts caps myCapacity).better ≠ 0) := by
  rw [Ne, Ne, worse_add_better_eq_zero, total_eq_zero]
  unfold Apart
  rw [← or_iff_not_imp_left, not_forall]
  simp only [not_forall, exists_prop]

theorem multiplier_nil (myCapacity : Amount) : multiplier exact [] myCapacity = some (.real 1) := by
  show some (Exact.real ((1 : ℕ) : ℝ)) = _
  rw [Nat.cast_one]

/-- The multiplier, where we are apart from some competitor. -/
theorem multiplier_of_apart {caps : List Amount} {myCapacity : Amount}
    (h : (counts caps myCapacity).worse + (counts caps myCapacity).better ≠ 0) :
    multiplier exact caps myCapacity = some (.real (level (limit (counts caps myCapacity).total)
      (share (counts caps myCapacity).worse (counts caps myCapacity).better) ^ 2)) :=
  calculateMultiplier_exact (worse_add_better_le caps myCapacity) h

theorem evaluated_iff (caps : List Amount) (myCapacity : Amount) :
    Evaluated caps myCapacity ↔ Apart caps myCapacity := by
  constructor
  · intro h
    exact (apart_iff caps myCapacity).mpr h.divides
  · intro h
    have hdiv := (apart_iff caps myCapacity).mp h
    refine ⟨worse_add_better_le caps myCapacity, hdiv, fun htotal => ?_, ?_⟩
    · exact ⟨_, position_exact (hdiv htotal), share_nonneg _ _, share_le_one _ _⟩
    · by_cases htotal : (counts caps myCapacity).total = 0
      · obtain rfl := (total_eq_zero caps myCapacity).mp htotal
        exact ⟨1, multiplier_nil myCapacity⟩
      · exact ⟨_, multiplier_of_apart (hdiv htotal)⟩

/-- **MONOTONE** in our capacity. -/
theorem multiplier_mono {caps : List Amount} {own own' : Amount} (hle : own.le own' = true)
    (h : Apart caps own) (h' : Apart caps own') :
    ∃ m m' : ℝ, multiplier exact caps own = some (.real m)
      ∧ multiplier exact caps own' = some (.real m') ∧ m ≤ m' := by
  rcases caps with _ | ⟨c, caps⟩
  · exact ⟨1, 1, multiplier_nil own, multiplier_nil own', le_rfl⟩
  have htotal : ∀ x, (counts (c :: caps) x).total ≠ 0 := fun x hx =>
    List.cons_ne_nil _ _ ((total_eq_zero _ x).mp hx)
  have hdiv := (apart_iff _ own).mp h (htotal own)
  have hdiv' := (apart_iff _ own').mp h' (htotal own')
  refine ⟨_, _, multiplier_of_apart hdiv, multiplier_of_apart hdiv', ?_⟩
  have hsame : (counts (c :: caps) own).total = (counts (c :: caps) own').total := by
    rw [counts_eq, counts_eq]
  obtain ⟨hworse, hbetter⟩ := counts_mono (c :: caps) hle
  have hlim := one_le_sqrt_limit (counts (c :: caps) own').total
  rw [hsame]
  refine pow_le_pow_left₀ (level_nonneg hlim (share_nonneg _ _)) ?_ 2
  exact level_mono hlim (share_mono hdiv hdiv' hworse hbetter)

/-- **HEADLINE**: two of our capacities against one list of competitors are both evaluated,
    the larger to no smaller multiplier, exactly if each is apart from the competitors. -/
theorem evaluated_iff_apart (caps : List Amount) {own own' : Amount} (hle : own.le own' = true) :
    (Evaluated caps own ∧ Evaluated caps own'
        ∧ ∃ m m' : ℝ, multiplier exact caps own = some (.real m)
          ∧ multiplier exact caps own' = some (.real m') ∧ m ≤ m')
      ↔ Apart caps own ∧ Apart caps own' := by
  constructor
  · rintro ⟨h, h', -⟩
    exact ⟨(evaluated_iff caps own).mp h, (evaluated_iff caps own').mp h'⟩
  · rintro ⟨h, h'⟩
    exact ⟨(evaluated_iff caps own).mpr h, (evaluated_iff caps own').mpr h',
      multiplier_mono hle h h'⟩

/-- One competitor below both, one as large as the larger. -/
theorem evaluated_iff_apart_two :
    Evaluated [⟨1000⟩, ⟨3000⟩] ⟨2000⟩ ∧ Evaluated [⟨1000⟩, ⟨3000⟩] ⟨3000⟩
      ∧ ∃ m m' : ℝ, multiplier exact [⟨1000⟩, ⟨3000⟩] ⟨2000⟩ = some (.real m)
        ∧ multiplier exact [⟨1000⟩, ⟨3000⟩] ⟨3000⟩ = some (.real m') ∧ m ≤ m' :=
  (evaluated_iff_apart [⟨1000⟩, ⟨3000⟩] (by decide)).mpr
    ⟨.inr ⟨⟨1000⟩, by decide, by decide⟩, .inr ⟨⟨1000⟩, by decide, by decide⟩⟩

/-- The only competitor is as large as we are: nobody is worse or better. -/
theorem equal_competitor :
    ¬ Evaluated [⟨7000⟩] ⟨7000⟩ ∧ multiplier exact [⟨7000⟩] ⟨7000⟩ = some .undefined :=
  ⟨fun h => h.divides (by decide) (by decide), calculateMultiplier_undefined one_ne_zero⟩

end FeeModderBySize
