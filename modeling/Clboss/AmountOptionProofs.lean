import Mathlib.Data.List.TakeWhile
import Clboss.AmountSettingsProofs

/-! # `setconfig` of an amount — what the text says and what takes effect

    The text of a dynamic option has to be a DECIMAL: digits, perhaps with a plus
    before and white space around, and below `2 ^ 64`.  A value that the validation
    would alter is refused, and a refused value leaves everything as it was.

    Between the text and the validation stands `Amount::sat`, which multiplies by
    1000 in 64 bits and does not look.  From `2 ^ 64 / 1000` satoshis on the
    validation sees what is LEFT of the product, and where that is a usable amount
    the option is accepted and another amount takes effect. -/

namespace AmountSettingsHandler

open Ln

/-! ## The handler and the command -/

/-- The name of an option. -/
def Field.name : Field → String
  | .reserve    => "clboss-min-onchain"
  | .minChannel => "clboss-min-channel"
  | .maxChannel => "clboss-max-channel"

theorem fieldOf_name (field : Field) : fieldOf field.name = some field := by
  cases field <;> decide

/-- The amount an option sets. -/
def AmountSettings.get (s : AmountSettings) : Field → Amount
  | .reserve    => s.reserve
  | .minChannel => s.minChannel
  | .maxChannel => s.maxChannel

/-- The state of the handler. -/
structure Impl where
  settings     : AmountSettings
  optionsEnded : Bool

/-- The subscription to `Msg::Option`: the state after it, the settings it publishes and the
    reason it rejects the value for, empty if it does not. -/
def onOption (s : Impl) (name value : String) : Impl × List AmountSettings × String :=
  match fieldOf name with
  | none       => (s, [], "")
  | some field =>
      if s.optionsEnded then
        match onDynamicOption s.settings name value field with
        | .error reason => (s, [], reason)
        | .ok candidate => ({ s with settings := candidate }, [candidate], "")
      else ({ s with settings := onStartupOption s.settings field value }, [], "")

/-- How a command is answered. -/
inductive Reply where
  | response
  | fail (code : ℤ) (message : String)
deriving DecidableEq

def rpcInvalidParams : ℤ := -32602

/-- `setconfig` of an option that is registered as dynamic. -/
def setconfig (s : Impl) (name value : String) : Impl × List AmountSettings × Reply :=
  ((onOption s name value).1, (onOption s name value).2.1,
    if (onOption s name value).2.2 ≠ "" then
      .fail rpcInvalidParams ("setconfig: " ++ (onOption s name value).2.2)
    else .response)

/-! ## Decimals -/

/-- The number that digits stand for. -/
def decimalValue (digits : List Char) : ℕ :=
  digits.foldl (fun n c => 10 * n + (c.toNat - '0'.toNat)) 0

/-- The text is a decimal number, with an optional plus and white space around. -/
def IsDecimal (value : String) (n : ℕ) : Prop :=
  ∃ pre plus digits post, value.toList = pre ++ (plus ++ (digits ++ post))
    ∧ (∀ c ∈ pre, isSpace c = true) ∧ (plus = [] ∨ plus = ['+'])
    ∧ digits ≠ [] ∧ (∀ c ∈ digits, c.isDigit = true)
    ∧ (∀ c ∈ post, isSpace c = true) ∧ n = decimalValue digits

/-- What is left of a text after white space and a plus. -/
def unsigned (value : String) : List Char :=
  let s := value.toList.dropWhile isSpace
  if s.head? = some '+' then s.tail else s

theorem isSpace_of_isDigit {c : Char} (h : c.isDigit = true) : isSpace c = false := by
  obtain ⟨hge, -⟩ := Bool.and_eq_true_iff.mp h
  have hge' : '0' ≤ c := of_decide_eq_true hge
  unfold isSpace
  rw [Bool.or_eq_false_iff, Bool.and_eq_false_iff]
  refine ⟨decide_eq_false ?_, Or.inr (decide_eq_false ?_)⟩
  · rintro rfl
    exact absurd hge' (by decide)
  · intro hle
    exact absurd (Char.le_trans hge' hle) (by decide)

theorem dropWhile_of_head {p : Char → Bool} {l : List Char} (h : ∀ c, l.head? = some c → p c = false) :
    l.dropWhile p = l := by
  cases l with
  | nil => rfl
  | cons c l => exact List.dropWhile_cons_of_neg (by rw [h c rfl]; exact Bool.false_ne_true)

theorem takeWhile_of_head {p : Char → Bool} {l : List Char} (h : ∀ c, l.head? = some c → p c = false) :
    l.takeWhile p = [] := by
  cases l with
  | nil => rfl
  | cons c l => exact List.takeWhile_cons_of_neg (by rw [h c rfl]; exact Bool.false_ne_true)

/-- How a decimal is taken apart. -/
structure Parts (value : String) (n : ℕ) : Prop where
  minus  : (value.toList.dropWhile isSpace).head? ≠ some '-'
  digits : (unsigned value).takeWhile Char.isDigit ≠ []
  number : n = decimalValue ((unsigned value).takeWhile Char.isDigit)
  rest   : ((unsigned value).dropWhile Char.isDigit).dropWhile isSpace = []

theorem IsDecimal.parts {value : String} {n : ℕ} (h : IsDecimal value n) : Parts value n := by
  obtain ⟨pre, plus, digits, post, htext, hpre, hplus, hne, hdigits, hpost, rfl⟩ := h
  obtain ⟨d, ds, rfl⟩ := List.exists_cons_of_ne_nil hne
  have hd := hdigits d List.mem_cons_self
  have hpostDigit : ∀ c, post.head? = some c → c.isDigit = false := by
    intro c hc
    have hspace := hpost c (List.mem_of_head? hc)
    cases hdigit : c.isDigit with
    | false => rfl
    | true  => rw [isSpace_of_isDigit hdigit] at hspace; cases hspace
  have hdrop : value.toList.dropWhile isSpace = plus ++ (d :: ds ++ post) := by
    rw [htext, List.dropWhile_append_of_pos hpre]
    refine dropWhile_of_head (fun c hc => ?_)
    rcases hplus with rfl | rfl
    · cases hc
      exact isSpace_of_isDigit hd
    · cases hc
      decide
  have hne' : ∀ c ∈ ['+', '-'], d ≠ c := by
    have hsigns : ∀ c ∈ ['+', '-'], c.isDigit = false := by
      intro c hc
      rcases List.mem_pair.mp hc with rfl | rfl
      · rfl
      · rfl
    rintro c hc rfl
    rw [hsigns d hc] at hd
    cases hd
  have hunsigned : unsigned value = d :: ds ++ post := by
    unfold unsigned
    dsimp only
    rw [hdrop]
    rcases hplus with rfl | rfl
    · exact if_neg (fun hhead => hne' '+' (by decide) (Option.some.inj hhead))
    · exact if_pos rfl
  have htake : (unsigned value).takeWhile Char.isDigit = d :: ds := by
    rw [hunsigned, List.takeWhile_append_of_pos hdigits, takeWhile_of_head hpostDigit,
      List.append_nil]
  constructor
  · rw [hdrop]
    intro hhead
    rcases hplus with rfl | rfl
    · exact hne' '-' (by decide) (Option.some.inj hhead)
    · exact absurd (Option.some.inj hhead) (by decide)
  · rw [htake]
    exact List.cons_ne_nil d ds
  · rw [htake]
  · rw [hunsigned, List.dropWhile_append_of_pos hdigits, dropWhile_of_head hpostDigit]
    exact List.dropWhile_eq_nil_iff.mpr hpost

theorem Parts.isDecimal {value : String} {n : ℕ} (h : Parts value n) : IsDecimal value n := by
  obtain ⟨-, hdigits, hvalue, hrest⟩ := h
  have hpre : ∀ c ∈ value.toList.takeWhile isSpace, isSpace c = true :=
    fun c hc => List.mem_takeWhile_imp hc
  have hds : ∀ c ∈ (unsigned value).takeWhile Char.isDigit, c.isDigit = true :=
    fun c hc => List.mem_takeWhile_imp hc
  have hpost := List.dropWhile_eq_nil_iff.mp hrest
  have hsplit : (unsigned value).takeWhile Char.isDigit ++ (unsigned value).dropWhile Char.isDigit
      = unsigned value := List.takeWhile_append_dropWhile
  have hplus : ∃ plus, (plus = [] ∨ plus = ['+'])
      ∧ value.toList.dropWhile isSpace = plus ++ unsigned value := by
    unfold unsigned
    dsimp only
    by_cases hhead : (value.toList.dropWhile isSpace).head? = some '+'
    · obtain ⟨tail, htail⟩ := List.head?_eq_some_iff.mp hhead
      refine ⟨['+'], Or.inr rfl, ?_⟩
      rw [if_pos hhead, htail]
      rfl
    · refine ⟨[], Or.inl rfl, ?_⟩
      rw [if_neg hhead]
      rfl
  obtain ⟨plus, hplus, hdrop⟩ := hplus
  refine ⟨value.toList.takeWhile isSpace, plus, _, _, ?_, hpre, hplus, hdigits, hds, hpost, hvalue⟩
  rw [hsplit, ← hdrop, List.takeWhile_append_dropWhile]

/-- A text is one number at most. -/
theorem IsDecimal.unique {value : String} {n m : ℕ} (hn : IsDecimal value n)
    (hm : IsDecimal value m) : n = m := hn.parts.number.trans hm.parts.number.symm

/-- **SPEC** of `parse_sats`: a clean text is a decimal below `2 ^ 64`. -/
theorem parseSats_clean_iff (value : String) (a : Amount) :
    parseSats value = (true, a) ↔ ∃ n, IsDecimal value n ∧ n < 2 ^ 64 ∧ a = .sat (UInt64.ofNat n) := by
  have hread : readUInt64 (value.toList.dropWhile isSpace)
      = if (unsigned value).takeWhile Char.isDigit = []
            ∨ 2 ^ 64 ≤ decimalValue ((unsigned value).takeWhile Char.isDigit) then none
        else some (UInt64.ofNat (decimalValue ((unsigned value).takeWhile Char.isDigit)),
          (unsigned value).dropWhile Char.isDigit) := rfl
  unfold parseSats
  dsimp only
  constructor
  · intro h
    by_cases hminus : (value.toList.dropWhile isSpace).head? = some '-'
    · rw [if_pos hminus] at h
      cases h
    · rw [if_neg hminus, hread] at h
      split at h
      · cases h
      · rename_i n rest hsome
        split at hsome
        · cases hsome
        · rename_i hout
          cases hsome
          rw [Prod.mk.injEq, decide_eq_true_iff] at h
          rw [not_or, Nat.not_le] at hout
          exact ⟨_, Parts.isDecimal ⟨hminus, hout.1, rfl, h.1⟩, hout.2, h.2.symm⟩
  · rintro ⟨n, hn, hlt, rfl⟩
    obtain ⟨hminus, hdigits, hvalue, hrest⟩ := hn.parts
    rw [if_neg hminus, hread, ← hvalue, if_neg (by rw [not_or, Nat.not_le]; exact ⟨hdigits, hlt⟩)]
    simp only [hrest, decide_true]

/-! ## Reasons -/

theorem append_ne_empty {a : String} (b : String) (h : a ≠ "") : a ++ b ≠ "" := by
  intro happend
  exact h (String.append_eq_empty_iff.mp happend).1

theorem floorAmount_problem {amount floor : Amount} {note : Amount → Note}
    (hnote : ∀ a, (note a).problem ≠ "") {m : Note} (hm : m ∈ (floorAmount amount floor note).2) :
    m.problem ≠ "" := by
  unfold floorAmount at hm
  split at hm
  · rw [List.mem_singleton.mp hm]
    exact hnote amount
  · cases hm

/-- Whatever the validation has to say, it says something. -/
theorem validate_problem {s : AmountSettings} {m : Note} (hm : m ∈ (validate s).2) :
    m.problem ≠ "" := by
  have hfloored : ∀ m ∈ (floored s).2, m.problem ≠ "" := by
    intro m hm
    rcases List.mem_append.mp hm with hm | hreserve
    · rcases List.mem_append.mp hm with hmin | hmax
      · refine floorAmount_problem (fun a => ?_) hmin
        exact append_ne_empty _ (append_ne_empty _ (append_ne_empty _ (by decide)))
      · refine floorAmount_problem (fun a => ?_) hmax
        refine append_ne_empty _ (append_ne_empty _ (append_ne_empty _ (append_ne_empty _ ?_)))
        decide
    · refine floorAmount_problem (fun a => ?_) hreserve
      refine append_ne_empty _ (append_ne_empty _ (append_ne_empty _ (append_ne_empty _ ?_)))
      decide
  unfold validate at hm
  dsimp only at hm
  split at hm
  · exact hfloored m hm
  · rcases List.mem_append.mp hm with hm | hconflict
    · exact hfloored m hm
    · rw [List.mem_singleton.mp hconflict]
      refine append_ne_empty _ (append_ne_empty _ (append_ne_empty _ (append_ne_empty _ ?_)))
      refine append_ne_empty _ (append_ne_empty _ ?_)
      decide

/-! ## What takes effect -/

@[simp]
theorem AmountSettings.get_set (s : AmountSettings) (a : Amount) (field : Field) :
    (s.set a field).get field = a := by
  cases field <;> rfl

@[simp]
theorem AmountSettings.get_derive (s : AmountSettings) (field : Field) :
    s.derive.get field = s.get field := by
  cases field <;> simp only [AmountSettings.derive, AmountSettings.get]

/-- **SPEC** of `on_dynamic_option`, where it accepts. -/
theorem onDynamicOption_ok_iff (s s' : AmountSettings) (name value : String) (field : Field) :
    onDynamicOption s name value field = .ok s'
      ↔ ∃ n, IsDecimal value n ∧ n < 2 ^ 64
        ∧ validate (s.set (.sat (UInt64.ofNat n)) field) = (s', []) := by
  unfold onDynamicOption
  constructor
  · intro h
    by_cases hclean : (parseSats value).1 = true
    · rw [if_pos hclean] at h
      obtain ⟨n, hn, hlt, hsat⟩ := (parseSats_clean_iff value (parseSats value).2).mp
        (Prod.ext hclean rfl)
      rw [hsat] at h
      refine ⟨n, hn, hlt, ?_⟩
      rcases hv : validate (s.set (.sat (UInt64.ofNat n)) field) with ⟨candidate, _ | ⟨note, notes⟩⟩
      · rw [hv] at h
        cases h
        rfl
      · rw [hv] at h
        cases h
    · rw [if_neg hclean] at h
      cases h
  · rintro ⟨n, hn, hlt, hv⟩
    have hparse : parseSats value = (true, .sat (UInt64.ofNat n)) :=
      (parseSats_clean_iff value _).mpr ⟨n, hn, hlt, rfl⟩
    have hclean : (parseSats value).1 = true := congrArg Prod.fst hparse
    have hamount : (parseSats value).2 = .sat (UInt64.ofNat n) := congrArg Prod.snd hparse
    rw [if_pos hclean, hamount, hv]

/-- **SPEC** of `on_dynamic_option`, where it refuses: there is a reason. -/
theorem onDynamicOption_reason {s : AmountSettings} {name value reason : String} {field : Field}
    (h : onDynamicOption s name value field = .error reason) : reason ≠ "" := by
  unfold onDynamicOption at h
  split at h
  · rcases hv : validate (s.set (parseSats value).2 field) with ⟨candidate, _ | ⟨note, notes⟩⟩
    · rw [hv] at h
      cases h
    · rw [hv] at h
      cases h
      refine validate_problem (s := s.set (parseSats value).2 field) ?_
      rw [hv]
      exact List.mem_cons_self
  · cases h
    intro happend
    exact absurd (String.append_eq_empty_iff.mp happend).2 (by decide)

/-- **SPEC** of `setconfig`, by the verdict on the value. -/
theorem setconfig_eq (s : AmountSettings) (field : Field) (value : String) :
    setconfig ⟨s, true⟩ field.name value = match onDynamicOption s field.name value field with
      | .ok candidate => (⟨candidate, true⟩, [candidate], .response)
      | .error reason => (⟨s, true⟩, [], .fail rpcInvalidParams ("setconfig: " ++ reason)) := by
  have hon : onOption ⟨s, true⟩ field.name value
      = match onDynamicOption s field.name value field with
        | .error reason => (⟨s, true⟩, [], reason)
        | .ok candidate => (⟨candidate, true⟩, [candidate], "") := by
    unfold onOption
    rw [fieldOf_name]
    exact if_pos rfl
  unfold setconfig
  rw [hon]
  rcases hverdict : onDynamicOption s field.name value field with reason | candidate
  · simp only [if_pos (onDynamicOption_reason hverdict)]
  · simp only [ne_eq, not_true_eq_false, if_false]

/-- The option means what it says: accepted, its text is a number and just so many satoshis are
    in effect; refused, nothing happened. -/
structure Means (s : Impl) (field : Field) (value : String)
    (o : Impl × List AmountSettings × Reply) : Prop where
  accepted : o.2.2 = .response →
    ∃ n, IsDecimal value n ∧ (o.1.settings.get field).v.toNat = 1000 * n
  refused  : o.2.2 ≠ .response → o.1 = s ∧ o.2.1 = []

theorem toNat_sat_ofNat {n : ℕ} (h : n < 2 ^ 64) :
    (Amount.sat (UInt64.ofNat n)).v.toNat = 1000 * n % 2 ^ 64 := by
  show (UInt64.ofNat n * 1000).toNat = _
  have hthousand : (1000 : UInt64).toNat = 1000 := by decide
  rw [UInt64.toNat_mul, UInt64.toNat_ofNat_of_lt' h, hthousand, Nat.mul_comm]

/-- **HEADLINE**: the option means what it says just where the product does not wrap, for a
    number that the validation would let pass as it comes out. -/
theorem setconfig_means_iff (s : AmountSettings) (field : Field) (value : String) :
    Means ⟨s, true⟩ field value (setconfig ⟨s, true⟩ field.name value)
      ↔ ∀ n, IsDecimal value n → n < 2 ^ 64 →
          (validate (s.set (.sat (UInt64.ofNat n)) field)).2 = [] → 1000 * n < 2 ^ 64 := by
  rw [setconfig_eq]
  constructor
  · intro hmeans n hn hlt hnotes
    rcases hv : validate (s.set (.sat (UInt64.ofNat n)) field) with ⟨candidate, notes⟩
    rw [hv] at hnotes
    have hnil : notes = [] := hnotes
    rw [hnil] at hv
    have hok := (onDynamicOption_ok_iff s candidate field.name value field).mpr ⟨n, hn, hlt, hv⟩
    rw [hok] at hmeans
    obtain ⟨m, hm, hget⟩ := hmeans.accepted rfl
    rw [hm.unique hn] at hget
    have hbound := (candidate.get field).v.toNat_lt
    exact hget ▸ hbound
  · intro hwraps
    rcases hverdict : onDynamicOption s field.name value field with reason | candidate
    · exact ⟨fun h => (by cases h), fun _ => ⟨rfl, rfl⟩⟩
    · refine ⟨fun _ => ?_, fun h => absurd rfl h⟩
      obtain ⟨n, hn, hlt, hv⟩ := (onDynamicOption_ok_iff s _ field.name value field).mp hverdict
      have hfits := hwraps n hn hlt (congrArg Prod.snd hv)
      refine ⟨n, hn, ?_⟩
      show (candidate.get field).v.toNat = 1000 * n
      rw [(fits_of_no_notes hv).1, AmountSettings.get_derive, AmountSettings.get_set,
        toNat_sat_ofNat hlt, Nat.mod_eq_of_lt hfits]

/-! ## A number that wraps -/

/-- What is in effect when no option was given. -/
def defaultImpl : Impl := ⟨(validate .defaults).1, true⟩

/-- `2 ^ 61` and a hundred million. -/
def wrappingValue : String := "2305843009313693952"

theorem isDecimal_wrappingValue : IsDecimal wrappingValue 2305843009313693952 := by
  refine ⟨[], [], wrappingValue.toList, [], ?_, ?_, Or.inl rfl, ?_, ?_, ?_, ?_⟩
  · rw [List.append_nil]
    rfl
  · exact fun c hc => by cases hc
  · decide +kernel
  · exact List.all_eq_true.mp (by decide +kernel)
  · exact fun c hc => by cases hc
  · decide +kernel

/-- **COUNTEREXAMPLE**: the largest channel is accepted as `2 ^ 61` satoshis and more, and a
    hundred million are in effect. -/
theorem wrappingValue_accepted :
    (setconfig defaultImpl "clboss-max-channel" wrappingValue).2.2 = .response
      ∧ ¬ Means defaultImpl .maxChannel wrappingValue
          (setconfig defaultImpl "clboss-max-channel" wrappingValue) := by
  have haccepted : (setconfig defaultImpl "clboss-max-channel" wrappingValue).2.2 = .response := by
    decide +kernel
  have hget : (setconfig defaultImpl "clboss-max-channel" wrappingValue).1.settings.maxChannel
      = .sat 100000000 := by decide +kernel
  refine ⟨haccepted, fun hmeans => ?_⟩
  obtain ⟨n, hn, heffect⟩ := hmeans.accepted haccepted
  rw [hn.unique isDecimal_wrappingValue] at heffect
  have hmax : ((setconfig defaultImpl "clboss-max-channel" wrappingValue).1.settings.get
      .maxChannel) = .sat 100000000 := hget
  rw [hmax] at heffect
  exact absurd heffect (by decide)

end AmountSettingsHandler
