import Clboss.JsmnEqualProofs

/-! # JSON numbers — what they stand for, and what is read of them

    The text of a number has a rational value (`Number.rat`).  `to_double` takes the
    text apart again, into sign, digits, fraction and exponent, and makes the
    nearest double of the same value (`toDouble_text`); the digits it meets are
    exactly the digits that were written, because what comes after them is none.

    Of a whole number that a double holds nothing is lost (`toSize_toDouble_iff`). -/

namespace Json

open Decimals Jsmn

/-! ## Values -/

/-- The digits after the point. -/
def Number.fraction (n : Number) : List UInt8 :=
  match n.frac with
  | none    => []
  | some ds => ds.text

/-- The exponent as a number. -/
def Exponent.value (e : Exponent) : ℤ :=
  if e.sign = some false then -Decimals.value e.digits.text else Decimals.value e.digits.text

/-- The power of ten. -/
def Number.exponent (n : Number) : ℤ :=
  match n.exp with
  | none   => 0
  | some e => e.value

/-- Without the sign. -/
def Number.magnitude (n : Number) : ℚ :=
  value (n.int.text ++ n.fraction) * 10 ^ (n.exponent - n.fraction.length)

/-- The number that the text stands for. -/
def Number.rat (n : Number) : ℚ := if n.negative then -n.magnitude else n.magnitude

/-- The text of the fraction, with its point. -/
def Number.fractionText (n : Number) : List UInt8 :=
  match n.frac with
  | none    => []
  | some ds => '.'.toUInt8 :: ds.text

/-- The text of the exponent, with its `e`. -/
def Number.exponentText (n : Number) : List UInt8 :=
  match n.exp with
  | none   => []
  | some e => e.text

/-! ## Digits -/

theorem isDigit_digit (d : Fin 10) : Decimals.isDigit (digit d) = true := by
  have h := isDigit_ofDigit d.isLt
  exact h

theorem isDigit_digits (ds : Digits) : ∀ c ∈ ds.text, Decimals.isDigit c = true := by
  intro c hc
  rcases List.mem_cons.mp hc with rfl | hc
  · exact isDigit_digit _
  · obtain ⟨d, -, rfl⟩ := List.mem_map.mp hc
    exact isDigit_digit d

/-- The part before the point is digits only. -/
theorem isDigit_int (i : IntPart) : ∀ c ∈ i.text, Decimals.isDigit c = true := by
  intro c hc
  cases i with
  | zero =>
      rw [List.mem_singleton.mp hc]
      exact isDigit_digit 0
  | digits d more =>
      rcases List.mem_cons.mp hc with rfl | hc
      · exact isDigit_digit _
      · obtain ⟨d, -, rfl⟩ := List.mem_map.mp hc
        exact isDigit_digit d

/-- And at least one of them. -/
theorem int_text_cons (i : IntPart) : ∃ d cs, i.text = digit d :: cs := by
  cases i with
  | zero => exact ⟨0, [], rfl⟩
  | digits d more => exact ⟨d.succ, _, rfl⟩

/-- A text that goes on with no digit. -/
def Stops (rest : List UInt8) : Prop := ∀ c cs, rest = c :: cs → Decimals.isDigit c = false

/-- The digits are taken up to what is none. -/
theorem takeWhile_digits {ds rest : List UInt8} (hds : ∀ c ∈ ds, Decimals.isDigit c = true)
    (h : Stops rest) : (ds ++ rest).takeWhile Decimals.isDigit = ds := by
  rw [List.takeWhile_append_of_pos hds]
  cases rest with
  | nil => rw [List.takeWhile_nil, List.append_nil]
  | cons c cs => rw [List.takeWhile_cons_of_neg (by rw [h c cs rfl]; decide), List.append_nil]

theorem dropWhile_digits {ds rest : List UInt8} (hds : ∀ c ∈ ds, Decimals.isDigit c = true)
    (h : Stops rest) : (ds ++ rest).dropWhile Decimals.isDigit = rest := by
  rw [List.dropWhile_append_of_pos hds]
  cases rest with
  | nil => rfl
  | cons c cs => rw [List.dropWhile_cons_of_neg (by rw [h c cs rfl]; decide)]

/-- An exponent begins with no digit. -/
theorem stops_exp (e : Exponent) : Stops e.text := by
  intro c cs h
  obtain ⟨rfl, -⟩ := List.cons.inj h
  split <;> decide

/-! ## The parts that are read -/

/-- There is no sign before a digit. -/
theorem takeSign_digits {d : Fin 10} {cs : List UInt8} :
    takeSign (digit d :: cs) = (false, digit d :: cs) := by
  have hd : digit d ≠ '-'.toUInt8 ∧ digit d ≠ '+'.toUInt8 := by
    revert d
    decide
  rw [takeSign, if_neg hd.1, if_neg hd.2]

theorem takeWhile_all {ds : List UInt8} (hds : ∀ c ∈ ds, Decimals.isDigit c = true) :
    ds.takeWhile Decimals.isDigit = ds := by
  have hstops : Stops [] := fun c cs hc => nomatch hc
  have h := takeWhile_digits hds hstops
  rwa [List.append_nil] at h

/-- The exponent. -/
theorem takeExponent_text (e : Exponent) : takeExponent e.text = some e.value := by
  obtain ⟨capital, sign, ds⟩ := e
  have hcons : ds.text = digit ds.first :: ds.more.map digit := rfl
  have hall := takeWhile_all (isDigit_digits ds)
  have hne : ds.text.isEmpty = false := rfl
  have hmark : (if capital then 'E'.toUInt8 else 'e'.toUInt8) = 'e'.toUInt8
      ∨ (if capital then 'E'.toUInt8 else 'e'.toUInt8) = 'E'.toUInt8 := by
    cases capital
    · exact .inl rfl
    · exact .inr rfl
  unfold Exponent.text Exponent.value
  rw [takeExponent, if_pos hmark]
  cases sign with
  | none =>
      rw [List.nil_append]
      rw [hcons, takeSign_digits, ← hcons]
      simp only [hall, hne, Bool.false_eq_true, if_false, reduceCtorEq]
  | some plus =>
      cases plus with
      | true =>
          have hsign : takeSign (['+'.toUInt8] ++ ds.text) = (false, ds.text) := rfl
          simp only [hsign, hall, hne, Bool.false_eq_true, if_false, Option.some.injEq,
            Bool.true_eq_false]
      | false =>
          have hsign : takeSign (['-'.toUInt8] ++ ds.text) = (true, ds.text) := rfl
          simp only [hsign, hall, hne, Bool.false_eq_true, if_false, if_true]

/-- The text of a number, part by part. -/
theorem text_eq (n : Number) :
    n.text = (if n.negative then ['-'.toUInt8] else [])
      ++ (n.int.text ++ (n.fractionText ++ n.exponentText)) := by
  unfold Number.text Number.fractionText Number.exponentText
  cases n.frac <;> cases n.exp <;> simp only [List.append_assoc]

/-- Its sign is taken. -/
theorem takeSign_text (n : Number) :
    takeSign n.text = (n.negative, n.int.text ++ (n.fractionText ++ n.exponentText)) := by
  rw [text_eq]
  cases n.negative with
  | true => rfl
  | false =>
      obtain ⟨d, cs, hint⟩ := int_text_cons n.int
      simp only [Bool.false_eq_true, if_false, List.nil_append]
      rw [hint, List.cons_append, takeSign_digits]

theorem stops_exponentText (n : Number) : Stops n.exponentText := by
  unfold Number.exponentText
  cases n.exp with
  | none => exact fun c cs h => nomatch h
  | some e => exact stops_exp e

/-- Neither the fraction nor the exponent begins with a digit. -/
theorem stops_fractionText (n : Number) : Stops (n.fractionText ++ n.exponentText) := by
  unfold Number.fractionText
  cases n.frac with
  | none => exact stops_exponentText n
  | some ds =>
      intro c cs h
      obtain ⟨rfl, -⟩ := List.cons.inj h
      decide

/-- The exponent is taken, or is not there. -/
theorem takeExponent_exponentText (n : Number) :
    takeExponent n.exponentText = some n.exponent := by
  unfold Number.exponentText Number.exponent
  cases n.exp with
  | none => rfl
  | some e => exact takeExponent_text e

/-- The fraction, up to the exponent. -/
theorem takeFraction_fractionText (n : Number) :
    takeFraction (n.fractionText ++ n.exponentText) = (n.fraction, n.exponentText) := by
  unfold Number.fractionText Number.fraction
  cases n.frac with
  | none =>
      rw [List.nil_append]
      unfold Number.exponentText
      cases n.exp with
      | none => rfl
      | some e =>
          obtain ⟨capital, sign, ds⟩ := e
          cases capital <;> rfl
  | some ds =>
      rw [List.cons_append, takeFraction, if_pos rfl, List.span_eq_takeWhile_dropWhile,
        takeWhile_digits (isDigit_digits ds) (stops_exponentText n),
        dropWhile_digits (isDigit_digits ds) (stops_exponentText n)]

/-! ## Numbers -/

/-- A number begins with no whitespace, and not like a literal. -/
theorem text_start (n : Number) :
    ∃ c cs, n.text = c :: cs ∧ ¬(c = ' '.toUInt8 ∨ 9 ≤ c ∧ c ≤ 13) ∧ c ≠ 't'.toUInt8
      ∧ c ≠ 'f'.toUInt8 ∧ c ≠ 'n'.toUInt8 := by
  rw [text_eq]
  cases n.negative with
  | true => exact ⟨_, _, rfl, by decide, by decide, by decide, by decide⟩
  | false =>
      obtain ⟨d, cs, hint⟩ := int_text_cons n.int
      have hd : ¬(digit d = ' '.toUInt8 ∨ 9 ≤ digit d ∧ digit d ≤ 13) ∧ digit d ≠ 't'.toUInt8
          ∧ digit d ≠ 'f'.toUInt8 ∧ digit d ≠ 'n'.toUInt8 := by
        clear hint
        revert d
        decide
      rw [hint]
      exact ⟨_, _, rfl, hd⟩

/-- **HEADLINE**: a number is read as the double nearest to it. -/
theorem toDouble_text (n : Number) : toDouble n.text = (Double.ofRat n.rat).clamp := by
  obtain ⟨c, cs, htext, hblank, -⟩ := text_start n
  obtain ⟨d, ds, hint⟩ := int_text_cons n.int
  have hdrop : n.text.dropWhile (fun c => c = ' '.toUInt8 ∨ 9 ≤ c ∧ c ≤ 13) = n.text := by
    rw [htext, List.dropWhile_cons_of_neg (by simpa using hblank)]
  have hnonempty : n.int.text.isEmpty = false := by
    rw [hint]
    rfl
  unfold toDouble
  simp only [hdrop, takeSign_text, takeWhile_digits (isDigit_int n.int) (stops_fractionText n),
    dropWhile_digits (isDigit_int n.int) (stops_fractionText n), takeFraction_fractionText,
    takeExponent_exponentText, hnonempty, Bool.false_and, Bool.false_eq_true, if_false]
  rfl

/-- The text says which number it is. -/
theorem rat_eq_of_text_eq {n n' : Number} (h : n.text = n'.text) : n.rat = n'.rat := by
  have hsign := congrArg takeSign h
  rw [takeSign_text, takeSign_text] at hsign
  obtain ⟨hnegative, hbody⟩ := Prod.mk.inj hsign
  have hint := congrArg (List.takeWhile Decimals.isDigit) hbody
  have hafter := congrArg (List.dropWhile Decimals.isDigit) hbody
  rw [takeWhile_digits (isDigit_int _) (stops_fractionText n),
    takeWhile_digits (isDigit_int _) (stops_fractionText n')] at hint
  rw [dropWhile_digits (isDigit_int _) (stops_fractionText n),
    dropWhile_digits (isDigit_int _) (stops_fractionText n')] at hafter
  have hfraction := congrArg takeFraction hafter
  rw [takeFraction_fractionText, takeFraction_fractionText] at hfraction
  obtain ⟨hdigits, hexp⟩ := Prod.mk.inj hfraction
  have hexponent := congrArg takeExponent hexp
  rw [takeExponent_exponentText, takeExponent_exponentText] at hexponent
  unfold Number.rat Number.magnitude
  rw [hnegative, hint, hdigits, Option.some.inj hexponent]

/-- A number is no literal. -/
theorem isNumber_text (n : Number) : Object.isNumber (some (.prim n.text)) = true := by
  obtain ⟨c, cs, htext, -, ht, hf, hn⟩ := text_start n
  unfold Object.isNumber
  simp [htext, ht, hf, hn]

/-! ## Whole numbers -/

/-- **SPEC** of a whole number: what is read of it. -/
theorem toDouble_natCast {n : Number} {k : ℕ} (h : n.rat = k) (hk : k < 2 ^ 64) :
    toDouble n.text = .finite (Double.round k) := by
  have hread := Double.ofInt_of_lt hk
  rw [toDouble_text, h]
  unfold Double.ofInt at hread
  rw [Int.cast_natCast] at hread
  rw [hread]
  rfl

/-- **HEADLINE**: a whole number of 64 bits is the integer that is made of it
    exactly if it is a double. -/
theorem toSize_toDouble_iff {n : Number} {k : ℕ} (h : n.rat = k) (hk : k < 2 ^ 64) :
    (toDouble n.text).toSize = k ↔ Double.round (k : ℚ) = k := by
  obtain ⟨m, hm⟩ := Double.exists_round_natCast k
  have hfloor : (toDouble n.text).toSize = m % 2 ^ 64 := by
    rw [toDouble_natCast h hk, hm]
    show ⌊(m : ℚ)⌋.toNat % 2 ^ 64 = _
    rw [Int.floor_natCast, Int.toNat_natCast]
  have hle : m ≤ 2 ^ 64 := by
    have := @Double.round_le_two_pow (k : ℚ) 64 (by positivity) (by exact_mod_cast hk)
    rw [hm] at this
    exact_mod_cast this
  rw [hfloor, hm]
  constructor
  · intro heq
    by_cases hlt : m < 2 ^ 64
    · rw [Nat.mod_eq_of_lt hlt] at heq
      rw [heq]
    · have htop : m = 2 ^ 64 := by omega
      have hzero : k = 0 := by
        rw [← heq, htop, Nat.mod_self]
      rw [hzero, Nat.cast_zero, Double.round_zero] at hm
      have : m = 0 := by exact_mod_cast hm.symm
      omega
  · intro heq
    have hmk : m = k := by exact_mod_cast heq
    rw [hmk, Nat.mod_eq_of_lt hk]

end Json
