import Clboss.AmountSettingsProofs

/-! # `validate` — when forced settings are ready for the Planner

    `validate` raises what is below a floor, derives two amounts and lowers
    `min_channel` where a channel and what is to remain exceed `max_channel`.
    Validated settings are READY when the floors hold and the derived amounts
    are what they are named after, with nothing saturated, wrapped or rounded.

    TWO slips keep them from it.  Doubling goes through `double`, which has 53
    bits for an amount of 64.  And the lowering rounds the room for `min_channel`
    UP to satoshis, so that the lowered amount may still not fit.
    `validate_ready_iff` is the exact condition. -/

namespace AmountSettingsHandler

open Ln

/-! ## Ready settings -/

/-- The floors hold. -/
structure AmountSettings.Floored (s : AmountSettings) : Prop where
  min_channel : minMinChannel.v.toNat ≤ s.minChannel.v.toNat
  max_channel : minUsableMaxChannel.v.toNat ≤ s.maxChannel.v.toNat
  reserve     : minUsableReserve.v.toNat ≤ s.reserve.v.toNat

/-- The derived amounts are what they are named after, and a channel and what is
    to remain fit under the largest channel. -/
structure AmountSettings.Ready (s : AmountSettings) : Prop extends s.Floored where
  min_amount    : s.minAmount.v.toNat = 2 * s.minChannel.v.toNat
  min_remaining : s.minRemaining.v.toNat = s.minAmount.v.toNat + additionalRemaining.v.toNat
  fits          : s.minChannel.v.toNat + s.minRemaining.v.toNat ≤ s.maxChannel.v.toNat

theorem toNat_minMinChannel : minMinChannel.v.toNat = 500000000 := rfl

theorem toNat_additionalRemaining : additionalRemaining.v.toNat = 50000000 := rfl

theorem toNat_minUsableMaxChannel : minUsableMaxChannel.v.toNat = 1550000000 := by
  decide +kernel

/-- **SPEC (derive)**: floored settings are ready when `double` holds `min_channel`
    and three of it fit. -/
theorem derive_ready_iff {s : AmountSettings} (h : s.Floored) :
    s.derive.Ready ↔ s.minChannel.IsDouble
      ∧ 3 * s.minChannel.v.toNat + additionalRemaining.v.toNat ≤ s.maxChannel.v.toNat := by
  have hmin := h.min_channel
  rw [toNat_minMinChannel] at hmin
  have hmul := Amount.toNat_mul_two (a := s.minChannel) (by omega)
  have hadd := Amount.toNat_add (s.minChannel.mul triggerFactor) additionalRemaining
  have hmax := s.maxChannel.v.toNat_lt
  rw [toNat_additionalRemaining] at hadd ⊢
  constructor
  · intro hr
    obtain ⟨hdouble, -⟩ := hmul.mp hr.min_amount
    refine ⟨hdouble, ?_⟩
    have hamount : (s.minChannel.mul triggerFactor).v.toNat = 2 * s.minChannel.v.toNat :=
      hr.min_amount
    have hremaining : ((s.minChannel.mul triggerFactor).add additionalRemaining).v.toNat
        = (s.minChannel.mul triggerFactor).v.toNat + 50000000 := hr.min_remaining
    have hfits : s.minChannel.v.toNat
        + ((s.minChannel.mul triggerFactor).add additionalRemaining).v.toNat
          ≤ s.maxChannel.v.toNat := hr.fits
    omega
  · rintro ⟨hdouble, hle⟩
    have hamount : (s.minChannel.mul triggerFactor).v.toNat = 2 * s.minChannel.v.toNat :=
      hmul.mpr ⟨hdouble, by omega⟩
    have hremaining : ((s.minChannel.mul triggerFactor).add additionalRemaining).v.toNat
        = 2 * s.minChannel.v.toNat + 50000000 := by
      rw [hadd, hamount]
      omega
    exact {
      toFloored := ⟨h.min_channel, h.max_channel, h.reserve⟩
      min_amount := hamount
      min_remaining := by
        show ((s.minChannel.mul triggerFactor).add additionalRemaining).v.toNat
          = (s.minChannel.mul triggerFactor).v.toNat + additionalRemaining.v.toNat
        rw [hremaining, hamount, toNat_additionalRemaining]
      fits := by
        show s.minChannel.v.toNat
          + ((s.minChannel.mul triggerFactor).add additionalRemaining).v.toNat
            ≤ s.maxChannel.v.toNat
        omega }

/-! ## Floors -/

theorem le_floorAmount (amount floor : Amount) (note : Amount → Note) :
    floor.v.toNat ≤ (floorAmount amount floor note).1.v.toNat := by
  unfold floorAmount
  split
  · exact Nat.le_refl _
  · rename_i hge
    exact Nat.le_of_not_lt (fun hlt => hge ((Amount.lt_iff _ _).mpr hlt))

theorem floorAmount_of_le {amount floor : Amount} {note : Amount → Note}
    (h : floor.v.toNat ≤ amount.v.toNat) : floorAmount amount floor note = (amount, []) := by
  unfold floorAmount
  rw [if_neg]
  intro hlt
  have := (Amount.lt_iff _ _).mp hlt
  omega

theorem floored_fields (s : AmountSettings) :
    (floored s).1.minChannel = (floorAmount s.minChannel minMinChannel minChannelNote).1
      ∧ (floored s).1.maxChannel
        = (floorAmount s.maxChannel minUsableMaxChannel maxChannelNote).1
      ∧ (floored s).1.reserve = (floorAmount s.reserve minUsableReserve reserveNote).1 := by
  unfold floored AmountSettings.derive
  refine ⟨?_, ?_, ?_⟩
  · with_reducible rfl
  · with_reducible rfl
  · with_reducible rfl

theorem floored_floored (s : AmountSettings) : (floored s).1.Floored := by
  obtain ⟨hmin, hmax, hreserve⟩ := floored_fields s
  constructor
  · rw [hmin]
    exact le_floorAmount _ _ _
  · rw [hmax]
    exact le_floorAmount _ _ _
  · rw [hreserve]
    exact le_floorAmount _ _ _

theorem derive_floored (s : AmountSettings) : (floored s).1.derive = (floored s).1 := by
  unfold floored AmountSettings.derive
  with_reducible rfl

/-- Ready settings are validated to themselves. -/
theorem validate_of_ready {s : AmountSettings} (h : s.Ready) (hderive : s.derive = s) :
    validate s = (s, []) := by
  have hfloored : floored s = (s, []) := by
    unfold floored
    simp only [floorAmount_of_le h.min_channel, floorAmount_of_le h.max_channel,
      floorAmount_of_le h.reserve, List.append_nil]
    exact congrArg (fun t => (t, [])) hderive
  have hfits : (s.minChannel.add s.minRemaining).le s.maxChannel = true := by
    have := h.fits
    rw [Amount.le_iff, Amount.toNat_add]
    omega
  unfold validate
  rw [hfloored]
  exact if_pos hfits

/-! ## The lowering -/

/-- What is left of the largest channel for three of the smallest, in msat. -/
def AmountSettings.room (s : AmountSettings) : ℕ :=
  s.maxChannel.v.toNat - additionalRemaining.v.toNat

/-- **SPEC (lowering)**: whole satoshi, of the room rounded UP. -/
theorem toNat_loweredMinChannel {s : AmountSettings} (h : s.Floored) :
    (loweredMinChannel s).v.toNat = 1000 * ((s.room + 999) / 1000 / 3) := by
  have hmax := h.max_channel
  have hlt := s.maxChannel.v.toNat_lt
  have hsub := Amount.toNat_sub s.maxChannel additionalRemaining
  rw [toNat_minUsableMaxChannel] at hmax
  rw [toNat_additionalRemaining] at hsub
  unfold AmountSettings.room
  rw [toNat_additionalRemaining]
  show ((((s.maxChannel.sub additionalRemaining).v + 999) / 1000 / 3) * 1000).toNat = _
  rw [UInt64.toNat_mul, UInt64.toNat_div, UInt64.toNat_div, UInt64.toNat_add, hsub]
  simp only [UInt64.reduceToNat]
  omega

theorem floored_lowered {s : AmountSettings} (h : s.Floored) :
    ({ s with minChannel := loweredMinChannel s } : AmountSettings).Floored where
  min_channel := by
    have hmax := h.max_channel
    rw [toNat_minUsableMaxChannel] at hmax
    show minMinChannel.v.toNat ≤ (loweredMinChannel s).v.toNat
    rw [toNat_loweredMinChannel h, toNat_minMinChannel]
    unfold AmountSettings.room
    rw [toNat_additionalRemaining]
    omega
  max_channel := h.max_channel
  reserve := h.reserve

/-- `double` holds `min_channel`, and three of it do not run out of 64 bits. -/
def AmountSettings.DoublesWell (s : AmountSettings) : Prop :=
  s.minChannel.IsDouble ∧ 3 * s.minChannel.v.toNat + additionalRemaining.v.toNat < 2 ^ 64

/-- `double` holds the lowered amount, and the room for it is not rounded up to a
    multiple of three satoshi. -/
def AmountSettings.LowersWell (s : AmountSettings) : Prop :=
  (loweredMinChannel s).IsDouble ∧ (1000 ∣ s.room ∨ ¬ 3 ∣ (s.room + 999) / 1000)

instance (s : AmountSettings) : Decidable s.DoublesWell := inferInstanceAs (Decidable (_ ∧ _))

instance (s : AmountSettings) : Decidable s.LowersWell := inferInstanceAs (Decidable (_ ∧ _))

/-- When the roundings do no harm, without a conflict and with one. -/
def RoundsWell (s : AmountSettings) : Prop :=
  if (floored s).1.Fits then (floored s).1.DoublesWell else (floored s).1.LowersWell

instance (s : AmountSettings) : Decidable (RoundsWell s) :=
  inferInstanceAs (Decidable (if (floored s).1.Fits then (floored s).1.DoublesWell
    else (floored s).1.LowersWell))

/-- A saturated sum that could not saturate is the exact one. -/
theorem le_of_saturated {m n k : ℕ} (h : 3 * m + k < 2 ^ 64)
    (hsum : min (2 ^ 64 - 1) (m + min (2 ^ 64 - 1) (2 * m + k)) ≤ n) : 3 * m + k ≤ n := by
  omega

/-- **STEP**: without a conflict. -/
theorem ready_iff_of_fits {s : AmountSettings} (h : s.Floored) (hderive : s.derive = s)
    (hfits : s.Fits) :
    s.Ready ↔ s.DoublesWell := by
  have hready := derive_ready_iff h
  rw [hderive] at hready
  rw [hready]
  clear hready
  unfold AmountSettings.DoublesWell
  have hmax := s.maxChannel.v.toNat_lt
  refine and_congr_right (fun hdouble => ⟨fun hle => by omega, fun hlt => ?_⟩)
  -- the sum the code has compared is the exact one
  have hmin := h.min_channel
  rw [toNat_minMinChannel] at hmin
  rw [toNat_additionalRemaining] at hlt ⊢
  have hamount : (s.minChannel.mul triggerFactor).v.toNat = 2 * s.minChannel.v.toNat :=
    (Amount.toNat_mul_two (by omega)).mpr ⟨hdouble, by omega⟩
  have hremaining : s.minRemaining = (s.minChannel.mul triggerFactor).add additionalRemaining := by
    conv_lhs => rw [← hderive]
    unfold AmountSettings.derive
    with_reducible rfl
  have hsum := (Amount.le_iff _ _).mp hfits
  rw [Amount.toNat_add, hremaining, Amount.toNat_add, hamount, toNat_additionalRemaining] at hsum
  exact le_of_saturated hlt hsum

/-- **STEP**: with one. -/
theorem ready_iff_of_conflict {s : AmountSettings} (h : s.Floored) :
    ({ s with minChannel := loweredMinChannel s } : AmountSettings).derive.Ready
      ↔ s.LowersWell := by
  have hmax := h.max_channel
  rw [toNat_minUsableMaxChannel] at hmax
  rw [derive_ready_iff (floored_lowered h)]
  unfold AmountSettings.LowersWell
  refine and_congr_right (fun _ => ?_)
  show 3 * (loweredMinChannel s).v.toNat + additionalRemaining.v.toNat ≤ s.maxChannel.v.toNat ↔ _
  have hroom : s.maxChannel.v.toNat = s.room + additionalRemaining.v.toNat := by
    unfold AmountSettings.room
    rw [toNat_additionalRemaining]
    omega
  rw [toNat_loweredMinChannel h, hroom]
  omega

theorem validate_of_fits {s : AmountSettings} (h : (floored s).1.Fits) :
    (validate s).1 = (floored s).1 := by
  unfold validate
  exact congrArg Prod.fst (if_pos h)

theorem validate_of_conflict {s : AmountSettings} (h : ¬ (floored s).1.Fits) :
    (validate s).1 = ({ (floored s).1 with
      minChannel := loweredMinChannel (floored s).1 } : AmountSettings).derive := by
  unfold validate
  exact congrArg Prod.fst (if_neg h)

/-- The derived amounts of validated settings are up to date. -/
theorem derive_validate (s : AmountSettings) : (validate s).1.derive = (validate s).1 := by
  by_cases hfits : (floored s).1.Fits
  · rw [validate_of_fits hfits, derive_floored]
  · rw [validate_of_conflict hfits]
    unfold AmountSettings.derive
    with_reducible rfl

theorem minAmount_validate (s : AmountSettings) :
    (validate s).1.minAmount = (validate s).1.minChannel.mul triggerFactor := by
  conv_lhs => rw [← derive_validate s]
  unfold AmountSettings.derive
  with_reducible rfl

/-- **HEADLINE (validate)**: validated settings are ready, and validated to
    themselves, exactly if the roundings do no harm. -/
theorem validate_ready_iff (s : AmountSettings) :
    (validate s).1.Ready ∧ validate (validate s).1 = ((validate s).1, []) ↔ RoundsWell s := by
  have hfloored := floored_floored s
  have hstable : (validate s).1.Ready ∧ validate (validate s).1 = ((validate s).1, [])
      ↔ (validate s).1.Ready :=
    ⟨fun h => h.1, fun h => ⟨h, validate_of_ready h (derive_validate s)⟩⟩
  rw [hstable]
  by_cases hfits : (floored s).1.Fits
  · have hwell : RoundsWell s ↔ (floored s).1.DoublesWell := iff_of_eq (if_pos hfits)
    rw [validate_of_fits hfits, hwell]
    exact ready_iff_of_fits hfloored (derive_floored s) hfits
  · have hwell : RoundsWell s ↔ (floored s).1.LowersWell := iff_of_eq (if_neg hfits)
    rw [validate_of_conflict hfits, hwell]
    exact ready_iff_of_conflict hfloored

/-- A largest channel that is no whole number of satoshi, as an option too large for
    64 bits of msat makes it. -/
def unevenSettings : AmountSettings :=
  { AmountSettings.defaults with
    minChannel := (parseSats "600000").2, maxChannel := (parseSats "2066035336257019783").2 }

/-- **COUNTEREXAMPLE**: the lowered amount and what is to remain exceed the largest
    channel by 992 msat, and validating again finds a conflict again. -/
theorem unevenSettings_not_ready :
    (validate unevenSettings).1.minChannel = .sat 500001
      ∧ (validate unevenSettings).1.minRemaining = .sat 1050002
      ∧ (validate unevenSettings).1.maxChannel = .msat 1550002008
      ∧ ¬ (validate unevenSettings).1.Fits
      ∧ (validate (validate unevenSettings).1).2.length = 1 := by
  decide +kernel

end AmountSettingsHandler
