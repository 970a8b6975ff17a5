import Clboss.DecimalProofs
import Mathlib.Data.Nat.Bitwise

/-! # `Ln::Scid` — a channel as block, transaction and output

    Three decimals with an `x` between them.  `parse_number` keeps its
    accumulator below the mask at every digit, and takes a number to be too
    large when that made it SMALLER.  So what it computes is the residue, and what it
    refuses is a number that is not `Climbing`: `30000000` passes the mask of
    24 bits as `13222784`, which is no less than `3000000` was.

    Up to these numbers (`Wraps`) the two conversions are the codec that they
    are meant to be (`codec_iff`), and every channel survives the trip through its text. -/

open Decimals

namespace Ln

/-- Block, transaction and output in one number. -/
structure Scid where
  val : UInt64
deriving DecidableEq

namespace Scid

/-! ## The code -/

/-- `parse_number`, from a value that was reached. -/
def parseDigits (mask : UInt64) : UInt64 → List UInt8 → Option UInt64
  | val, []     => some val
  | val, c :: s =>
      if !isDigit c then none
      else
        let newVal := (val * 10 + (c - '0'.toUInt8).toUInt64) &&& mask
        -- Overflow?
        if newVal < val then none else parseDigits mask newVal s

/-- `parse_number`. -/
def parseNumber (mask : UInt64) (s : List UInt8) : Option UInt64 := parseDigits mask 0 s

/-- `std::find` of an `x`: what is before it, and what is after. -/
def findX : List UInt8 → Option (List UInt8 × List UInt8)
  | []     => none
  | c :: s =>
      if c = 'x'.toUInt8 then some ([], s)
      else (findX s).map (fun p => (c :: p.1, p.2))

/-- `validate_and_parse`. -/
def validateAndParse (s : List UInt8) : Option (UInt64 × UInt64 × UInt64) := do
  let (b, rest) ← findX s
  let (t, o) ← findX rest
  -- Not empty.
  if b = [] then none
  else if t = [] then none
  else if o = [] then none
  else do
    let b ← parseNumber 0xFFFFFF b
    let t ← parseNumber 0xFFFFFF t
    let o ← parseNumber 0xFFFF o
    return (b, t, o)

/-- `valid_string`. -/
def validString (s : List UInt8) : Bool := (validateAndParse s).isSome

/-- `Scid(std::string const&)`; `none` is `std::invalid_argument`. -/
def ofString (s : List UInt8) : Option Scid := do
  let (b, t, o) ← validateAndParse s
  return ⟨(b <<< 40) ||| (t <<< 16) ||| (o <<< 0)⟩

/-- `operator std::string`. -/
def toString (i : Scid) : List UInt8 :=
  text ((i.val >>> 40) &&& 0xFFFFFF).toNat ++ 'x'.toUInt8 ::
    (text ((i.val >>> 16) &&& 0xFFFFFF).toNat ++ 'x'.toUInt8 ::
      text ((i.val >>> 0) &&& 0xFFFF).toNat)

/-! ## The texts -/

/-- A text of three decimals. -/
structure Spelled (s b t o : List UInt8) : Prop where
  text        : s = b ++ 'x'.toUInt8 :: (t ++ 'x'.toUInt8 :: o)
  block       : IsDecimal b
  transaction : IsDecimal t
  output      : IsDecimal o

/-- Every number fits its field. -/
def InRange (b t o : List UInt8) : Prop := value b < 2 ^ 24 ∧ value t < 2 ^ 24 ∧ value o < 2 ^ 16

/-- No number falls modulo the size of its field. -/
def Climb (b t o : List UInt8) : Prop :=
  Climbing (2 ^ 24) b ∧ Climbing (2 ^ 24) t ∧ Climbing (2 ^ 16) o

/-- A text of three decimals, one of them too large, that the comparison does not catch. -/
def Wraps (s : List UInt8) : Prop :=
  ∃ b t o, Spelled s b t o ∧ Climb b t o ∧ ¬ InRange b t o

/-- What the conversion from a text should do with `s`. -/
structure Codec (s : List UInt8) : Prop where
  /-- Accepted are the texts in range, -/
  accepts : validString s = true ↔ ∃ b t o, Spelled s b t o ∧ InRange b t o
  /-- by the constructor as well, -/
  same    : validString s = (ofString s).isSome
  /-- and the fields are the numbers in the text. -/
  fields  : ∀ i, ofString s = some i → ∃ b t o, Spelled s b t o ∧
    (i.val.toNat / 2 ^ 40 = value b ∧ i.val.toNat / 2 ^ 16 % 2 ^ 24 = value t
      ∧ i.val.toNat % 2 ^ 16 = value o)

/-! ## Numbers -/

/-- A mask of `k` bits, one digit. -/
theorem toNat_masked {k : ℕ} {mask val : UInt64} (hk : k ≤ 32) (hmask : mask.toNat = 2 ^ k - 1)
    (hval : val.toNat < 2 ^ k) {c : UInt8} (h : isDigit c = true) :
    ((val * 10 + (c - '0'.toUInt8).toUInt64) &&& mask).toNat
      = (10 * val.toNat + digit c) % 2 ^ k := by
  have hpow : 2 ^ k ≤ 2 ^ 32 := Nat.pow_le_pow_right (Nat.succ_pos 1) hk
  have hd := digit_lt h
  have hsum : (val * 10 + (c - '0'.toUInt8).toUInt64).toNat = 10 * val.toNat + digit c := by
    rw [UInt64.toNat_add, UInt64.toNat_mul, show '0'.toUInt8 = 48 from rfl, toNat_sub_digit h]
    simp only [UInt64.reduceToNat]
    omega
  rw [UInt64.toNat_and, hsum, hmask, Nat.and_two_pow_sub_one_eq_mod]

/-- **SPEC** of `parse_number`: the residue of a number that climbs. -/
theorem parseDigits_iff {k : ℕ} {mask : UInt64} (hk : k ≤ 32) (hmask : mask.toNat = 2 ^ k - 1)
    (done rest : List UInt8) (val : UInt64) (hval : val.toNat = value done % 2 ^ k)
    (hdone : Climbing (2 ^ k) done) (v : UInt64) :
    parseDigits mask val rest = some v ↔
      (∀ c ∈ rest, isDigit c = true) ∧ Climbing (2 ^ k) (done ++ rest)
        ∧ v.toNat = value (done ++ rest) % 2 ^ k := by
  induction rest generalizing done val with
  | nil =>
      rw [List.append_nil, ← hval]
      constructor
      · rintro hv
        cases hv
        exact ⟨fun _ hc => absurd hc List.not_mem_nil, hdone, rfl⟩
      · rintro ⟨-, -, hv⟩
        exact congrArg some (UInt64.toNat_inj.mp hv.symm)
  | cons c rest ih =>
      unfold parseDigits
      by_cases hc : isDigit c = true
      case neg =>
        rw [Bool.not_eq_true] at hc
        rw [hc]
        constructor
        · intro h
          cases h
        · rintro ⟨hall, -⟩
          rw [hall c List.mem_cons_self] at hc
          cases hc
      case pos =>
        have hvlt : val.toNat < 2 ^ k := hval ▸ Nat.mod_lt _ (Nat.two_pow_pos k)
        have hnew := toNat_masked hk hmask hvlt hc
        rw [hval, ← value_snoc_mod] at hnew
        have hsplit : done ++ c :: rest = (done ++ [c]) ++ rest :=
          (List.append_assoc done [c] rest).symm
        rw [hc, hsplit]
        show (if _ < val then none else _) = some v ↔ _
        split
        · rename_i hlt
          rw [UInt64.lt_iff_toNat_lt, hnew, hval] at hlt
          constructor
          · intro h
            cases h
          · rintro ⟨-, hclimb, -⟩
            exact absurd (climbing_snoc.mp hclimb.of_append).2 (by omega)
        · rename_i hge
          rw [UInt64.lt_iff_toNat_lt, hnew, hval, Nat.not_lt] at hge
          rw [ih (done ++ [c]) _ hnew (climbing_snoc.mpr ⟨hdone, hge⟩), List.forall_mem_cons]
          exact and_congr_left' ⟨fun h => ⟨hc, h⟩, And.right⟩

theorem parseNumber_iff {k : ℕ} {mask : UInt64} (hk : k ≤ 32) (hmask : mask.toNat = 2 ^ k - 1)
    (s : List UInt8) (v : UInt64) :
    parseNumber mask s = some v ↔
      (∀ c ∈ s, isDigit c = true) ∧ Climbing (2 ^ k) s ∧ v.toNat = value s % 2 ^ k :=
  parseDigits_iff hk hmask [] s 0 (Nat.zero_mod _).symm (climbing_nil _) v

/-! ## Taking a text apart -/

theorem ne_x_of_isDigit {c : UInt8} (h : isDigit c = true) : c ≠ 'x'.toUInt8 := by
  rintro rfl
  cases h

theorem findX_iff {s a rest : List UInt8} :
    findX s = some (a, rest) ↔ s = a ++ 'x'.toUInt8 :: rest ∧ ∀ c ∈ a, c ≠ 'x'.toUInt8 := by
  induction s generalizing a with
  | nil =>
      constructor
      · intro h
        cases h
      · rintro ⟨h, -⟩
        exact absurd h.symm (List.append_ne_nil_of_right_ne_nil _ (List.cons_ne_nil _ _))
  | cons d s ih =>
      unfold findX
      split
      · rename_i hd
        rw [hd]
        constructor
        · intro h
          cases h
          exact ⟨rfl, fun _ hc => absurd hc List.not_mem_nil⟩
        · rintro ⟨h, ha⟩
          cases a with
          | nil       => rw [List.nil_append, List.cons.injEq] at h; rw [h.2]
          | cons c a  => exact absurd (List.cons.inj h).1.symm (ha c List.mem_cons_self)
      · rename_i hd
        constructor
        · intro h
          obtain ⟨⟨b, r⟩, hfind, hp⟩ := Option.map_eq_some_iff.mp h
          cases hp
          obtain ⟨hs, hb⟩ := ih.mp hfind
          exact ⟨by rw [hs]; rfl, List.forall_mem_cons.mpr ⟨hd, hb⟩⟩
        · rintro ⟨h, ha⟩
          cases a with
          | nil       => exact absurd (List.cons.inj h).1 hd
          | cons c a  =>
              obtain ⟨rfl, hs⟩ := List.cons.inj h
              rw [ih.mpr ⟨hs, (List.forall_mem_cons.mp ha).2⟩]
              rfl

theorem Spelled.findX_text {s b t o : List UInt8} (h : Spelled s b t o) :
    findX s = some (b, t ++ 'x'.toUInt8 :: o) :=
  findX_iff.mpr ⟨h.text, fun c hc => ne_x_of_isDigit (h.block.2 c hc)⟩

theorem Spelled.findX_rest {s b t o : List UInt8} (h : Spelled s b t o) :
    findX (t ++ 'x'.toUInt8 :: o) = some (t, o) :=
  findX_iff.mpr ⟨rfl, fun c hc => ne_x_of_isDigit (h.transaction.2 c hc)⟩

/-- A text has one spelling. -/
theorem Spelled.unique {s b t o b' t' o' : List UInt8} (h : Spelled s b t o)
    (h' : Spelled s b' t' o') : b = b' ∧ t = t' ∧ o = o' := by
  have hb := h.findX_text
  rw [h'.findX_text] at hb
  obtain ⟨rfl, hrest⟩ := Prod.mk.inj (Option.some.inj hb)
  have ht := h.findX_rest
  rw [← hrest, h'.findX_rest] at ht
  obtain ⟨rfl, rfl⟩ := Prod.mk.inj (Option.some.inj ht)
  exact ⟨rfl, rfl, rfl⟩

theorem InRange.climb {b t o : List UInt8} (h : InRange b t o) : Climb b t o :=
  ⟨climbing_of_lt h.1, climbing_of_lt h.2.1, climbing_of_lt h.2.2⟩

/-- **SPEC** of `validate_and_parse`. -/
theorem validateAndParse_iff {s : List UInt8} {v : UInt64 × UInt64 × UInt64} :
    validateAndParse s = some v ↔ ∃ b t o, Spelled s b t o ∧ Climb b t o
      ∧ v.1.toNat = value b % 2 ^ 24 ∧ v.2.1.toNat = value t % 2 ^ 24
      ∧ v.2.2.toNat = value o % 2 ^ 16 := by
  have hnumber24 := @parseNumber_iff 24 0xFFFFFF (by decide) rfl
  have hnumber16 := @parseNumber_iff 16 0xFFFF (by decide) rfl
  obtain ⟨vb, vt, vo⟩ := v
  constructor
  · intro h
    unfold validateAndParse at h
    obtain ⟨⟨b, rest⟩, hb, h⟩ := Option.bind_eq_some_iff.mp h
    obtain ⟨⟨t, o⟩, ht, h⟩ := Option.bind_eq_some_iff.mp h
    dsimp only at h
    split at h
    · cases h
    rename_i hbe
    split at h
    · cases h
    rename_i hte
    split at h
    · cases h
    rename_i hoe
    obtain ⟨vb', hvb, h⟩ := Option.bind_eq_some_iff.mp h
    obtain ⟨vt', hvt, h⟩ := Option.bind_eq_some_iff.mp h
    obtain ⟨vo', hvo, h⟩ := Option.bind_eq_some_iff.mp h
    cases h
    obtain ⟨hbd, hbc, hbv⟩ := (hnumber24 b vb).mp hvb
    obtain ⟨htd, htc, htv⟩ := (hnumber24 t vt).mp hvt
    obtain ⟨hod, hoc, hov⟩ := (hnumber16 o vo).mp hvo
    have hs := (findX_iff.mp hb).1
    rw [(findX_iff.mp ht).1] at hs
    exact ⟨b, t, o, ⟨hs, ⟨hbe, hbd⟩, ⟨hte, htd⟩, ⟨hoe, hod⟩⟩, ⟨hbc, htc, hoc⟩, hbv, htv, hov⟩
  · rintro ⟨b, t, o, h, ⟨hbc, htc, hoc⟩, hbv, htv, hov⟩
    have hvb := (hnumber24 b vb).mpr ⟨h.block.2, hbc, hbv⟩
    have hvt := (hnumber24 t vt).mpr ⟨h.transaction.2, htc, htv⟩
    have hvo := (hnumber16 o vo).mpr ⟨h.output.2, hoc, hov⟩
    unfold validateAndParse
    rw [h.findX_text, Option.bind_eq_bind, Option.bind_some]
    dsimp only
    rw [h.findX_rest, Option.bind_eq_bind, Option.bind_some]
    dsimp only
    rw [if_neg h.block.1, if_neg h.transaction.1, if_neg h.output.1, hvb, hvt, hvo]
    rfl

/-! ## The fields in one number -/

/-- Block, transaction and output side by side. -/
theorem toNat_pack {b t o : UInt64} (hb : b.toNat < 2 ^ 24) (ht : t.toNat < 2 ^ 24)
    (ho : o.toNat < 2 ^ 16) :
    ((b <<< 40) ||| (t <<< 16) ||| (o <<< 0)).toNat
      = 2 ^ 40 * b.toNat + (2 ^ 16 * t.toNat + o.toNat) := by
  have hb' : (b <<< 40).toNat = 2 ^ 40 * b.toNat := by
    rw [UInt64.toNat_shiftLeft, Nat.shiftLeft_eq, show (40 : UInt64).toNat % 64 = 40 from rfl]
    omega
  have ht' : (t <<< 16).toNat = 2 ^ 16 * t.toNat := by
    rw [UInt64.toNat_shiftLeft, Nat.shiftLeft_eq, show (16 : UInt64).toNat % 64 = 16 from rfl]
    omega
  have ho' : (o <<< 0).toNat = o.toNat := by
    rw [UInt64.toNat_shiftLeft, Nat.shiftLeft_eq, show (0 : UInt64).toNat % 64 = 0 from rfl]
    omega
  rw [UInt64.toNat_or, UInt64.toNat_or, hb', ht', ho', Nat.or_assoc,
    ← Nat.two_pow_add_eq_or_of_lt ho, ← Nat.two_pow_add_eq_or_of_lt (by omega)]

/-- The three fields of a number, and the number. -/
theorem toNat_unpack (i : Scid) :
    ((i.val >>> 40) &&& 0xFFFFFF).toNat = i.val.toNat / 2 ^ 40 ∧
      ((i.val >>> 16) &&& 0xFFFFFF).toNat = i.val.toNat / 2 ^ 16 % 2 ^ 24 ∧
      ((i.val >>> 0) &&& 0xFFFF).toNat = i.val.toNat % 2 ^ 16 := by
  have hlt := i.val.toNat_lt
  have hmask : ∀ (n : UInt64), (n &&& 0xFFFFFF).toNat = n.toNat % 2 ^ 24 := fun n => by
    rw [UInt64.toNat_and]
    exact Nat.and_two_pow_sub_one_eq_mod _ 24
  have hmask' : ∀ (n : UInt64), (n &&& 0xFFFF).toNat = n.toNat % 2 ^ 16 := fun n => by
    rw [UInt64.toNat_and]
    exact Nat.and_two_pow_sub_one_eq_mod _ 16
  rw [hmask, hmask, hmask', UInt64.toNat_shiftRight, UInt64.toNat_shiftRight,
    UInt64.toNat_shiftRight, Nat.shiftRight_eq_div_pow, Nat.shiftRight_eq_div_pow,
    Nat.shiftRight_eq_div_pow, show (40 : UInt64).toNat % 64 = 40 from rfl,
    show (16 : UInt64).toNat % 64 = 16 from rfl, show (0 : UInt64).toNat % 64 = 0 from rfl]
  omega

/-- What the constructor makes of a text that climbs. -/
theorem ofString_iff {s : List UInt8} {i : Scid} :
    ofString s = some i ↔ ∃ b t o, Spelled s b t o ∧ Climb b t o
      ∧ i.val.toNat / 2 ^ 40 = value b % 2 ^ 24 ∧ i.val.toNat / 2 ^ 16 % 2 ^ 24 = value t % 2 ^ 24
      ∧ i.val.toNat % 2 ^ 16 = value o % 2 ^ 16 := by
  constructor
  · intro h
    obtain ⟨⟨vb, vt, vo⟩, hv, h⟩ := Option.bind_eq_some_iff.mp h
    cases h
    obtain ⟨b, t, o, hs, hclimb, hvb, hvt, hvo⟩ := validateAndParse_iff.mp hv
    dsimp only at hvb hvt hvo
    have hpack := @toNat_pack vb vt vo
      (by rw [hvb]; omega) (by rw [hvt]; omega) (by rw [hvo]; omega)
    refine ⟨b, t, o, hs, hclimb, ?_⟩
    rw [hpack]
    omega
  · rintro ⟨b, t, o, hs, hclimb, hb, ht, ho⟩
    obtain ⟨hub, hut, huo⟩ := toNat_unpack i
    have hv := (validateAndParse_iff (s := s) (v := ((i.val >>> 40) &&& 0xFFFFFF,
      (i.val >>> 16) &&& 0xFFFFFF, (i.val >>> 0) &&& 0xFFFF))).mpr
      ⟨b, t, o, hs, hclimb, hub.trans hb, hut.trans ht, huo.trans ho⟩
    unfold ofString
    rw [hv, Option.bind_eq_bind, Option.bind_some]
    refine congrArg (fun v => some (Scid.mk v)) (UInt64.toNat_inj.mp ?_)
    rw [toNat_pack (by omega) (by omega) (by omega), hub, hut, huo]
    omega

/-! ## The codec -/

theorem validString_iff {s : List UInt8} :
    validString s = true ↔ ∃ b t o, Spelled s b t o ∧ Climb b t o := by
  rw [validString, Option.isSome_iff_exists]
  constructor
  · rintro ⟨v, hv⟩
    obtain ⟨b, t, o, hs, hclimb, -⟩ := validateAndParse_iff.mp hv
    exact ⟨b, t, o, hs, hclimb⟩
  · rintro ⟨b, t, o, hs, hclimb⟩
    refine ⟨(UInt64.ofNat (value b % 2 ^ 24), UInt64.ofNat (value t % 2 ^ 24),
      UInt64.ofNat (value o % 2 ^ 16)), validateAndParse_iff.mpr ⟨b, t, o, hs, hclimb, ?_⟩⟩
    refine ⟨?_, ?_, ?_⟩ <;>
      exact UInt64.toNat_ofNat_of_lt (Nat.lt_trans (Nat.mod_lt _ (Nat.two_pow_pos _)) (by decide))

/-- **EXACTLY WHEN** the conversion from a text is the codec that it is meant to be. -/
theorem codec_iff_not_wraps (s : List UInt8) : Codec s ↔ ¬ Wraps s := by
  constructor
  · rintro h ⟨b, t, o, hs, hclimb, hrange⟩
    obtain ⟨b', t', o', hs', hrange'⟩ := h.accepts.mp (validString_iff.mpr ⟨b, t, o, hs, hclimb⟩)
    obtain ⟨rfl, rfl, rfl⟩ := hs.unique hs'
    exact hrange hrange'
  · intro h
    have hrange : ∀ {b t o}, Spelled s b t o → Climb b t o → InRange b t o :=
      fun hs hclimb => not_not.mp (fun hout => h ⟨_, _, _, hs, hclimb, hout⟩)
    constructor
    case accepts =>
      rw [validString_iff]
      constructor
      · rintro ⟨b, t, o, hs, hclimb⟩
        exact ⟨b, t, o, hs, hrange hs hclimb⟩
      · rintro ⟨b, t, o, hs, hin⟩
        exact ⟨b, t, o, hs, hin.climb⟩
    case same =>
      unfold validString ofString
      cases validateAndParse s <;> rfl
    case fields =>
      intro i hi
      obtain ⟨b, t, o, hs, hclimb, hb, ht, ho⟩ := ofString_iff.mp hi
      obtain ⟨hlb, hlt, hlo⟩ := hrange hs hclimb
      exact ⟨b, t, o, hs, hb.trans (Nat.mod_eq_of_lt hlb), ht.trans (Nat.mod_eq_of_lt hlt),
        ho.trans (Nat.mod_eq_of_lt hlo)⟩

/-- **ROUND TRIP**: every channel survives its text. -/
theorem ofString_toString (i : Scid) : ofString i.toString = some i := by
  obtain ⟨hb, ht, ho⟩ := toNat_unpack i
  have hlt := i.val.toNat_lt
  have hspelled : Spelled i.toString _ _ _ :=
    ⟨rfl, isDecimal_text _, isDecimal_text _, isDecimal_text _⟩
  refine ofString_iff.mpr ⟨_, _, _, hspelled, InRange.climb ?_, ?_⟩
  · unfold InRange
    rw [value_text, value_text, value_text, hb, ht, ho]
    omega
  · rw [value_text, value_text, value_text, hb, ht, ho]
    omega

/-- **HEADLINE**: the codec is right on exactly the texts that do not wrap, and for every
    channel it comes back from its text. -/
theorem text_codec (s : List UInt8) (i : Scid) :
    (Codec s ↔ ¬ Wraps s) ∧ ofString i.toString = some i :=
  ⟨codec_iff_not_wraps s, ofString_toString i⟩

/-- **COUNTEREXAMPLE**: block thirty million is accepted, as block `13222784`. -/
theorem block_wraps :
    ofString "30000000x0x0".toUTF8.toList = some ⟨(13222784 : UInt64) <<< 40⟩
      ∧ ¬ ∀ s, Codec s := by
  have hread : ofString "30000000x0x0".toUTF8.toList = some ⟨(13222784 : UInt64) <<< 40⟩ := by
    decide +kernel
  refine ⟨hread, fun h => (codec_iff_not_wraps _).mp (h "30000000x0x0".toUTF8.toList) ?_⟩
  obtain ⟨b, t, o, hs, hclimb, -⟩ := ofString_iff.mp hread
  refine ⟨b, t, o, hs, hclimb, ?_⟩
  have hspelled : Spelled "30000000x0x0".toUTF8.toList "30000000".toUTF8.toList "0".toUTF8.toList
      "0".toUTF8.toList :=
    ⟨by decide +kernel, isDecimal_iff_all.mpr (by decide +kernel),
      isDecimal_iff_all.mpr (by decide +kernel), isDecimal_iff_all.mpr (by decide +kernel)⟩
  obtain ⟨rfl, rfl, rfl⟩ := hs.unique hspelled
  rintro ⟨hb, -⟩
  revert hb
  decide +kernel

end Scid

end Ln
