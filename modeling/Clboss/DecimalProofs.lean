import Mathlib.Data.Nat.Digits.Lemmas
import Mathlib.Tactic.Ring

/-! # Decimals — numbers and the bytes they are written with

    `value` reads digits from the left, one multiplication a digit, the way a
    parser does; `text` writes a number without leading zeros.  Reading what
    was written gives the number back (`value_text`), and how long a text is
    says how large its number can be (`length_text_le`).

    A parser that reduces its accumulator modulo `m` at every digit computes
    the RESIDUE of the value (`value_snoc_mod`).  It sees an overflow only where the
    residue falls, and a text whose residues never fall is `Climbing`. -/

namespace Decimals

/-! ## Digits -/

/-- An ASCII digit. -/
def isDigit (c : UInt8) : Bool := 48 ≤ c && c ≤ 57

/-- What a digit stands for. -/
def digit (c : UInt8) : ℕ := c.toNat - 48

theorem isDigit_iff {c : UInt8} : isDigit c = true ↔ 48 ≤ c.toNat ∧ c.toNat ≤ 57 := by
  rw [isDigit, Bool.and_eq_true, decide_eq_true_eq, decide_eq_true_eq, UInt8.le_iff_toNat_le,
    UInt8.le_iff_toNat_le]
  exact Iff.rfl

theorem digit_lt {c : UInt8} (h : isDigit c = true) : digit c < 10 := by
  have := (isDigit_iff.mp h).2
  unfold digit
  omega

/-- What `c - '0'` is, of a digit. -/
theorem toNat_sub_digit {c : UInt8} (h : isDigit c = true) : (c - 48).toUInt64.toNat = digit c := by
  have hle : (48 : UInt8) ≤ c := UInt8.le_iff_toNat_le.mpr (isDigit_iff.mp h).1
  rw [UInt8.toNat_toUInt64, UInt8.toNat_sub_of_le _ _ hle]
  rfl

theorem toNat_ofDigit {d : ℕ} (h : d < 10) : (UInt8.ofNat (48 + d)).toNat = 48 + d :=
  UInt8.toNat_ofNat_of_lt (by
    show 48 + d < 256
    omega)

theorem isDigit_ofDigit {d : ℕ} (h : d < 10) : isDigit (UInt8.ofNat (48 + d)) = true := by
  rw [isDigit_iff, toNat_ofDigit h]
  omega

theorem digit_ofDigit {d : ℕ} (h : d < 10) : digit (UInt8.ofNat (48 + d)) = d := by
  rw [digit, toNat_ofDigit h]
  omega

/-! ## Values -/

/-- The number that digits stand for. -/
def value (s : List UInt8) : ℕ := s.foldl (fun n c => 10 * n + digit c) 0

/-- A decimal: at least one digit, and nothing else. -/
def IsDecimal (s : List UInt8) : Prop := s ≠ [] ∧ ∀ c ∈ s, isDigit c = true

theorem isDecimal_iff_all {s : List UInt8} :
    IsDecimal s ↔ s.isEmpty = false ∧ s.all isDigit = true := by
  rw [IsDecimal, List.isEmpty_eq_false_iff, List.all_eq_true]

@[simp] theorem value_nil : value [] = 0 := rfl

@[simp] theorem value_snoc (s : List UInt8) (c : UInt8) :
    value (s ++ [c]) = 10 * value s + digit c := by
  unfold value
  rw [List.foldl_append]
  rfl

/-- Reading from the left is Horner's rule. -/
theorem value_eq_ofDigits (s : List UInt8) : value s = Nat.ofDigits 10 (s.reverse.map digit) := by
  induction s using List.reverseRecOn with
  | nil => rfl
  | append_singleton s c ih =>
      rw [value_snoc, List.reverse_append, List.reverse_singleton, List.singleton_append,
        List.map_cons, Nat.ofDigits_cons, ← ih]
      exact Nat.add_comm _ _

/-- `k` digits stay below `10 ^ k`. -/
theorem value_lt {s : List UInt8} (h : ∀ c ∈ s, isDigit c = true) : value s < 10 ^ s.length := by
  induction s using List.reverseRecOn with
  | nil => exact Nat.one_pos
  | append_singleton s c ih =>
      have hs := ih (fun d hd => h d (List.mem_append_left _ hd))
      have hc := digit_lt (h c (List.mem_append_right _ (List.mem_singleton_self c)))
      rw [value_snoc, List.length_append, List.length_singleton, Nat.pow_succ]
      omega

theorem value_le_snoc (s : List UInt8) (c : UInt8) : value s ≤ value (s ++ [c]) := by
  rw [value_snoc]
  omega

/-- More digits, more value. -/
theorem value_le_append (s t : List UInt8) : value s ≤ value (s ++ t) := by
  induction t using List.reverseRecOn with
  | nil => rw [List.append_nil]
  | append_singleton t c ih =>
      rw [← List.append_assoc]
      exact Nat.le_trans ih (value_le_snoc _ c)

/-! ## Texts -/

/-- The digits of a number. -/
def text (n : ℕ) : List UInt8 :=
  if n = 0 then ['0'.toUInt8] else (Nat.digits 10 n).reverse.map (fun d => UInt8.ofNat (48 + d))

theorem one_lt_ten : 1 < 10 := by decide

theorem digits_lt {n d : ℕ} (h : d ∈ Nat.digits 10 n) : d < 10 :=
  Nat.digits_lt_base one_lt_ten h

theorem isDecimal_text (n : ℕ) : IsDecimal (text n) := by
  unfold text
  split
  · exact ⟨List.cons_ne_nil _ _, fun c hc => List.mem_singleton.mp hc ▸ rfl⟩
  · rename_i hn
    constructor
    · intro hnil
      have hdigits := List.reverse_eq_nil_iff.mp (List.map_eq_nil_iff.mp hnil)
      exact hn (Nat.digits_eq_nil_iff_eq_zero.mp hdigits)
    · intro c hc
      obtain ⟨d, hd, rfl⟩ := List.mem_map.mp hc
      exact isDigit_ofDigit (digits_lt (List.mem_reverse.mp hd))

/-- **ROUND TRIP**: a number is what its text says. -/
theorem value_text (n : ℕ) : value (text n) = n := by
  unfold text
  split
  · rename_i hn
    rw [hn]
    rfl
  · rw [value_eq_ofDigits, ← List.map_reverse, List.reverse_reverse, List.map_map]
    have hmap :
        (Nat.digits 10 n).map (digit ∘ fun d => UInt8.ofNat (48 + d)) = Nat.digits 10 n := by
      conv_rhs => rw [← List.map_id (Nat.digits 10 n)]
      exact List.map_congr_left (fun d hd => digit_ofDigit (digits_lt hd))
    rw [hmap, Nat.ofDigits_digits]

/-- How long a text is. -/
theorem length_text_le {n k : ℕ} (hk : 0 < k) : (text n).length ≤ k ↔ n < 10 ^ k := by
  unfold text
  split
  · rename_i hn
    rw [hn]
    exact ⟨fun _ => Nat.pow_pos (Nat.succ_pos 9), fun _ => hk⟩
  · rw [List.length_map, List.length_reverse]
    exact Nat.digits_length_le_iff one_lt_ten n

/-! ## Residues -/

/-- One more digit, modulo `m`. -/
theorem value_snoc_mod (m : ℕ) (s : List UInt8) (c : UInt8) :
    value (s ++ [c]) % m = (10 * (value s % m) + digit c) % m := by
  rw [value_snoc, Nat.add_mod, Nat.mul_mod, Nat.add_mod (10 * (value s % m)),
    Nat.mul_mod 10 (value s % m), Nat.mod_mod]

/-- Modulo `m` the value never falls from one digit to the next. -/
def Climbing (m : ℕ) (s : List UInt8) : Prop :=
  ∀ i < s.length, value (s.take i) % m ≤ value (s.take (i + 1)) % m

@[simp] theorem climbing_nil (m : ℕ) : Climbing m [] := fun _ hi => absurd hi (Nat.not_lt_zero _)

theorem climbing_snoc {m : ℕ} {s : List UInt8} {c : UInt8} :
    Climbing m (s ++ [c]) ↔ Climbing m s ∧ value s % m ≤ value (s ++ [c]) % m := by
  have hlength : (s ++ [c]).length = s.length + 1 := List.length_append
  have hinner : ∀ i ≤ s.length, (s ++ [c]).take i = s.take i := fun i hi =>
    List.take_append_of_le_length hi
  have hlast : (s ++ [c]).take (s.length + 1) = s ++ [c] := List.take_of_length_le hlength.le
  constructor
  · intro h
    constructor
    · intro i hi
      have := h i (by omega)
      rwa [hinner i (by omega), hinner (i + 1) (by omega)] at this
    · have := h s.length (by omega)
      rwa [hinner _ le_rfl, List.take_length, hlast] at this
  · rintro ⟨h, hc⟩ i hi
    rcases Nat.lt_or_ge i s.length with hlt | hge
    · rw [hinner i (by omega), hinner (i + 1) (by omega)]
      exact h i hlt
    · obtain rfl : i = s.length := by omega
      rwa [hinner _ le_rfl, List.take_length, hlast]

theorem Climbing.of_append {m : ℕ} {s t : List UInt8} (h : Climbing m (s ++ t)) : Climbing m s := by
  induction t using List.reverseRecOn with
  | nil => rwa [List.append_nil] at h
  | append_singleton t c ih =>
      rw [← List.append_assoc, climbing_snoc] at h
      exact ih h.1

/-- Below the modulus nothing is lost. -/
theorem climbing_of_lt {m : ℕ} {s : List UInt8} (h : value s < m) : Climbing m s := by
  intro i hi
  have hle : value (s.take (i + 1)) ≤ value s := by
    conv_rhs => rw [← List.take_append_drop (i + 1) s]
    exact value_le_append _ _
  have hstep : value (s.take i) ≤ value (s.take (i + 1)) := by
    rw [← List.take_append_getElem hi]
    exact value_le_snoc _ _
  rw [Nat.mod_eq_of_lt (by omega), Nat.mod_eq_of_lt (by omega)]
  exact hstep

end Decimals
