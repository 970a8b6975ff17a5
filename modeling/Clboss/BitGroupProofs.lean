import Mathlib.Data.List.Induction
import Mathlib.Data.Nat.Bitwise

/-! # Groups of bits — the same bits, cut another way

    A number below `2 ^ w` is `w` bits, most significant first (`bits`, `value`).
    Numbers of one width in a row are a row of bits, and cutting the row gives
    the numbers back (`groups_flatMap`, `flatMap_groups`); so numbers of width
    eight become numbers of width five by cutting their bits again.  What does
    not come out even is filled up with zeros (`regroup`), always fewer than a
    group. -/

namespace BitGroups

/-! ## One group -/

/-- The number that bits stand for. -/
def value (bs : List Bool) : ℕ := bs.foldl (fun n b => 2 * n + b.toNat) 0

/-- The last `w` bits of a number. -/
def bits : ℕ → ℕ → List Bool
  | 0, _     => []
  | w + 1, n => bits w (n / 2) ++ [n % 2 == 1]

@[simp] theorem value_nil : value [] = 0 := rfl

@[simp] theorem value_snoc (bs : List Bool) (b : Bool) :
    value (bs ++ [b]) = 2 * value bs + b.toNat := by
  unfold value
  rw [List.foldl_append]
  rfl

@[simp] theorem length_bits (w n : ℕ) : (bits w n).length = w := by
  induction w generalizing n with
  | zero => rfl
  | succ w ih => rw [bits, List.length_append, ih, List.length_singleton]

theorem value_lt (bs : List Bool) : value bs < 2 ^ bs.length := by
  induction bs using List.reverseRecOn with
  | nil => exact Nat.one_pos
  | append_singleton bs b ih =>
      rw [value_snoc, List.length_append, List.length_singleton, Nat.pow_succ]
      have := b.toNat_le
      omega

/-- The bits of a number are its value. -/
theorem value_bits {w n : ℕ} (h : n < 2 ^ w) : value (bits w n) = n := by
  induction w generalizing n with
  | zero => exact (Nat.lt_one_iff.mp h).symm
  | succ w ih =>
      rw [bits, value_snoc, ih (by rw [Nat.pow_succ] at h; omega)]
      rcases Nat.mod_two_eq_zero_or_one n with hn | hn
      · rw [hn]
        show 2 * (n / 2) + 0 = n
        omega
      · rw [hn]
        show 2 * (n / 2) + 1 = n
        omega

/-- The value of bits has those bits. -/
theorem bits_value (bs : List Bool) : bits bs.length (value bs) = bs := by
  induction bs using List.reverseRecOn with
  | nil => rfl
  | append_singleton bs b ih =>
      have hb := b.toNat_le
      have hhalf : (2 * value bs + b.toNat) / 2 = value bs := by omega
      have hlast : ((2 * value bs + b.toNat) % 2 == 1) = b := by
        cases b
        · exact beq_eq_false_iff_ne.mpr (by
            show (2 * value bs + 0) % 2 ≠ 1
            omega)
        · exact beq_iff_eq.mpr (by
            show (2 * value bs + 1) % 2 = 1
            omega)
      rw [List.length_append, List.length_singleton, bits, value_snoc, hhalf, hlast, ih]

/-! ## Many groups -/

/-- The first `k` groups of `w` bits. -/
def groups (w : ℕ) : ℕ → List Bool → List ℕ
  | 0, _      => []
  | k + 1, bs => value (bs.take w) :: groups w k (bs.drop w)

@[simp] theorem length_groups (w k : ℕ) (bs : List Bool) : (groups w k bs).length = k := by
  induction k generalizing bs with
  | zero => rfl
  | succ k ih => rw [groups, List.length_cons, ih]

theorem groups_lt (w k : ℕ) (bs : List Bool) : ∀ v ∈ groups w k bs, v < 2 ^ w := by
  induction k generalizing bs with
  | zero => exact fun v hv => absurd hv List.not_mem_nil
  | succ k ih =>
      refine List.forall_mem_cons.mpr ⟨?_, ih _⟩
      refine Nat.lt_of_lt_of_le (value_lt _) (Nat.pow_le_pow_right (Nat.succ_pos 1) ?_)
      rw [List.length_take]
      exact Nat.min_le_left _ _

/-- Bits that come out even are the bits of their groups. -/
theorem flatMap_groups {w k : ℕ} {bs : List Bool} (h : bs.length = w * k) :
    (groups w k bs).flatMap (bits w) = bs := by
  induction k generalizing bs with
  | zero => rw [List.eq_nil_of_length_eq_zero h]; rfl
  | succ k ih =>
      rw [Nat.mul_succ] at h
      have htake : (bs.take w).length = w := by
        rw [List.length_take]
        omega
      have hbits := bits_value (bs.take w)
      rw [htake] at hbits
      rw [groups, List.flatMap_cons, hbits, ih (by rw [List.length_drop]; omega),
        List.take_append_drop]

/-- Numbers are the groups of their bits. -/
theorem groups_flatMap {w : ℕ} {vs : List ℕ} (h : ∀ v ∈ vs, v < 2 ^ w) :
    groups w vs.length (vs.flatMap (bits w)) = vs := by
  induction vs with
  | nil => rfl
  | cons v vs ih =>
      obtain ⟨hv, hvs⟩ := List.forall_mem_cons.mp h
      rw [List.length_cons, groups, List.flatMap_cons, List.take_left' (length_bits w v),
        List.drop_left' (length_bits w v), value_bits hv, ih hvs]

theorem length_flatMap_bits (w : ℕ) (vs : List ℕ) :
    (vs.flatMap (bits w)).length = w * vs.length := by
  induction vs with
  | nil => rfl
  | cons v vs ih =>
      rw [List.flatMap_cons, List.length_append, length_bits, ih, List.length_cons, Nat.mul_succ]
      exact Nat.add_comm _ _

/-- The bits of numbers tell which numbers they are. -/
theorem flatMap_bits_inj {w : ℕ} (hw : 0 < w) {vs vs' : List ℕ} (h : ∀ v ∈ vs, v < 2 ^ w)
    (h' : ∀ v ∈ vs', v < 2 ^ w) (heq : vs.flatMap (bits w) = vs'.flatMap (bits w)) : vs = vs' := by
  have hlength : vs.length = vs'.length := by
    have := congrArg List.length heq
    rw [length_flatMap_bits, length_flatMap_bits] at this
    exact Nat.eq_of_mul_eq_mul_left hw this
  rw [← groups_flatMap h, ← groups_flatMap h', hlength, heq]

/-! ## Filling up -/

/-- How many zeros fill up the last group. -/
def padding (w n : ℕ) : ℕ := (w - n % w) % w

theorem padding_lt {w : ℕ} (hw : 0 < w) (n : ℕ) : padding w n < w := Nat.mod_lt _ hw

/-- Bits in groups of `w`, the last one filled up with zeros. -/
def regroup (w : ℕ) (bs : List Bool) : List ℕ :=
  groups w ((bs.length + padding w bs.length) / w)
    (bs ++ List.replicate (padding w bs.length) false)

theorem dvd_add_padding {w : ℕ} (hw : 0 < w) (n : ℕ) : w ∣ n + padding w n := by
  have hmod := Nat.mod_lt n hw
  have hdiv := Nat.div_add_mod n w
  unfold padding
  rcases Nat.eq_zero_or_pos (n % w) with hzero | hpos
  · rw [hzero, Nat.sub_zero, Nat.mod_self, Nat.add_zero]
    exact Nat.dvd_of_mod_eq_zero hzero
  · rw [Nat.mod_eq_of_lt (by omega)]
    exact ⟨n / w + 1, by rw [Nat.mul_succ]; omega⟩

/-- **ONE PADDING** makes the length even. -/
theorem eq_padding {w n k : ℕ} (hk : k < w) (h : w ∣ n + k) : k = padding w n := by
  have hw : 0 < w := Nat.lt_of_le_of_lt (Nat.zero_le k) hk
  have hp := padding_lt hw n
  have hdvd := dvd_add_padding hw n
  -- the two differ by less than a group
  rcases Nat.le_total k (padding w n) with hle | hle
  · have hsub : w ∣ padding w n - k := by
      have := Nat.dvd_sub hdvd h
      rwa [Nat.add_sub_add_left] at this
    have := Nat.eq_zero_of_dvd_of_lt hsub (by omega)
    omega
  · have hsub : w ∣ k - padding w n := by
      have := Nat.dvd_sub h hdvd
      rwa [Nat.add_sub_add_left] at this
    have := Nat.eq_zero_of_dvd_of_lt hsub (by omega)
    omega

theorem regroup_lt (w : ℕ) (bs : List Bool) : ∀ v ∈ regroup w bs, v < 2 ^ w := groups_lt _ _ _

/-- **REGROUPING** keeps the bits, with zeros behind them. -/
theorem flatMap_regroup {w : ℕ} (hw : 0 < w) (bs : List Bool) :
    (regroup w bs).flatMap (bits w) = bs ++ List.replicate (padding w bs.length) false := by
  refine flatMap_groups ?_
  rw [List.length_append, List.length_replicate, Nat.mul_div_cancel' (dvd_add_padding hw _)]

end BitGroups
