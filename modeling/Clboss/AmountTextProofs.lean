import Clboss.DecimalProofs
import Clboss.SurveyorProofs

/-! # `Ln::Amount` — the text of an amount

    An amount is written with all its digits and read back through
    `valid_string`, which bounds the text at THIRTEEN of them.  The comment there
    works out the supply in millisatoshi, `2,100,000,000,000,000,000`, and
    counts thirteen digits where there are nineteen.

    So what is read is right, as thirteen digits are far inside 64 bits (`reads`), but
    a hundred bitcoin are written in fourteen digits and refused (`survives_iff`). -/

open Decimals
open Surveyor

namespace Ln

namespace Amount

/-! ## The code -/

/-- The suffix that every amount has. -/
def suffix : List UInt8 := "msat".toUTF8.toList

/-- `operator std::string`. -/
def toString (a : Amount) : List UInt8 := Decimals.text a.v.toNat ++ suffix

/-! ## The codec -/

/-- The amount is read back from its text. -/
def Survives (a : Amount) : Prop :=
  validString a.toString = true ∧ amountOfString a.toString = .ok a

/-- The text is a decimal with the suffix, and is read as its value. -/
def Reads (s : List UInt8) : Prop :=
  ∃ digits a, IsDecimal digits ∧ s = digits ++ suffix ∧ amountOfString s = .ok a
    ∧ a.v.toNat = value digits

theorem length_suffix : suffix.length = 4 := by decide +kernel

/-- **SPEC** of `valid_string`. -/
theorem validString_iff {s : List UInt8} :
    validString s = true ↔
      ∃ digits, IsDecimal digits ∧ digits.length ≤ 13 ∧ s = digits ++ suffix := by
  constructor
  · intro h
    unfold validString at h
    split at h
    · cases h
    rename_i hlength
    split at h
    · cases h
    rename_i hsuffix
    split at h
    · cases h
    rename_i hall
    split at h
    · cases h
    rename_i hlong
    refine ⟨s.take (s.length - 4), ⟨?_, ?_⟩, ?_, ?_⟩
    · intro hnil
      have := congrArg List.length hnil
      rw [List.length_take, List.length_nil] at this
      omega
    · rw [Bool.not_eq_true', Bool.not_eq_false] at hall
      exact List.all_eq_true.mp hall
    · rw [List.length_take]
      omega
    · have hdrop : s.drop (s.length - 4) = suffix := not_not.mp hsuffix
      rw [← hdrop, List.take_append_drop]
  · rintro ⟨digits, hdec, hshort, rfl⟩
    have hlength : (digits ++ suffix).length = digits.length + 4 := by
      rw [List.length_append, length_suffix]
    have hpos : 0 < digits.length := List.length_pos_iff.mpr hdec.1
    unfold validString
    rw [hlength, Nat.add_sub_cancel, List.drop_left, List.take_left, if_neg (by omega),
      if_neg (show ¬ suffix ≠ "msat".toUTF8.toList from not_not.mpr rfl), if_neg, if_neg (by omega)]
    rw [Bool.not_eq_true', Bool.not_eq_false]
    exact List.all_eq_true.mpr hdec.2

/-- What `operator>>` reads of digits that fit. -/
theorem toNat_digitsValue {digits : List UInt8} (hdec : ∀ c ∈ digits, isDigit c = true)
    (hshort : digits.length ≤ 19) : (digitsValue digits).toNat = value digits := by
  induction digits using List.reverseRecOn with
  | nil => rfl
  | append_singleton s c ih =>
      rw [List.length_append, List.length_singleton] at hshort
      have hs : ∀ d ∈ s, isDigit d = true := fun d hd => hdec d (List.mem_append_left _ hd)
      have hc := hdec c (List.mem_append_right _ (List.mem_singleton_self c))
      have hlt : value s < 10 ^ 18 :=
        Nat.lt_of_lt_of_le (value_lt hs) (Nat.pow_le_pow_right (Nat.succ_pos 9) (by omega))
      have hstep : digitsValue (s ++ [c]) = 10 * digitsValue s + (c - 48).toUInt64 := by
        unfold digitsValue
        rw [List.foldl_append]
        rfl
      have hd := digit_lt hc
      rw [hstep, value_snoc, UInt64.toNat_add, UInt64.toNat_mul, ih hs (by omega),
        toNat_sub_digit hc]
      simp only [UInt64.reduceToNat]
      omega

/-- What is accepted is read as its value. -/
theorem reads {s : List UInt8} (h : validString s = true) : Reads s := by
  obtain ⟨digits, hdec, hshort, rfl⟩ := validString_iff.mp h
  refine ⟨digits, ⟨digitsValue digits⟩, hdec, rfl, ?_, toNat_digitsValue hdec.2 (by omega)⟩
  unfold amountOfString
  rw [if_pos h, List.length_append, length_suffix, Nat.add_sub_cancel, List.take_left]

theorem validString_toString (a : Amount) :
    validString a.toString = true ↔ a.v.toNat < 10 ^ 13 := by
  rw [← length_text_le (Nat.succ_pos 12), validString_iff]
  constructor
  · rintro ⟨digits, -, hshort, htext⟩
    rwa [List.append_cancel_right htext]
  · intro hshort
    exact ⟨Decimals.text a.v.toNat, isDecimal_text _, hshort, rfl⟩

/-- **EXACTLY WHEN** an amount survives its text. -/
theorem survives_iff (a : Amount) : Survives a ↔ a.v.toNat < 10 ^ 13 := by
  rw [← validString_toString]
  constructor
  · exact And.left
  · intro h
    refine ⟨h, ?_⟩
    obtain ⟨digits, b, -, htext, hread, hvalue⟩ := reads h
    rw [hread]
    rw [← List.append_cancel_right htext, value_text] at hvalue
    obtain ⟨v⟩ := a
    obtain ⟨w⟩ := b
    exact congrArg (fun v => Except.ok (Amount.mk v)) (UInt64.toNat_inj.mp hvalue)

/-- **HEADLINE**: thirteen digits survive, and what is accepted is its decimal value. -/
theorem texts_of_thirteen_digits (a : Amount) (s : List UInt8) :
    (Survives a ↔ a.v.toNat < 10 ^ 13) ∧ (validString s = true → Reads s) :=
  ⟨survives_iff a, reads⟩

/-- The supply, in millisatoshi. -/
def supply : ℕ := 21000000 * 100000000 * 1000

/-- **COUNTEREXAMPLE**: a hundred bitcoin do not. -/
theorem hundred_btc_refused :
    validString (toString ⟨10000000000000⟩) = false
      ∧ ¬ ∀ a : Amount, a.v.toNat ≤ supply → Survives a := by
  have hrefused : validString (toString ⟨10000000000000⟩) = false := by decide +kernel
  refine ⟨hrefused, fun h => ?_⟩
  have := (h ⟨10000000000000⟩ (by decide)).1
  rw [hrefused] at this
  cases this

end Amount

end Ln
